import McapCatalog.CoherentRuns
import McapCatalog.KeyGrammar

/-!
# One object among others

What one listed object can do to a reconcile: nothing to the other objects, unless what became of it cannot be recorded,
for then the run stops.

* `unlisted` — the source without one of its objects;
* `AgreeAt` — two catalogs that say the same of one recording and of one key, which the same effects keep;
* `SameEnding`, `Spares` — every other object ends as in the run in which the object was not listed;
* `Reconciled.sameEnding` — **the other objects of two reconciles**, one without the object;
* `spares_iff` — **a reconcile spares the others exactly if everything can be recorded**;
* `surrogate_not_spares` — a file whose name is no text stops the run.
-/

namespace McapCatalog.Builder

open McapCatalog.PyText McapCatalog.PyError McapCatalog.KeyParse McapCatalog.McapSummary McapCatalog.Storage
open McapCatalog.Tables McapCatalog.RowidTable McapCatalog.KeyedRows
open McapCatalog.Connection McapCatalog.CatalogDb McapCatalog.Reconcile McapCatalog.Worker McapCatalog.Runs

/-- The source in which one object is not listed. -/
def unlisted (source : Source) (bad : Listing) : Source :=
  { source with listAll := fun t => (source.listAll t).map fun listings => listings.erase bad }

theorem unchanging_unlisted {source : Source} (hs : source.Unchanging) (bad : Listing) : (unlisted source bad).Unchanging :=
  ⟨hs.stat, hs.openSummary, fun t t' => congrArg (Except.map _) (hs.listAll t t'), hs.intendedKey⟩

/-! ### Catalogs that agree -/

/-- The catalogs say the same of a recording and of a failure key. -/
structure AgreeAt (d : Dims) (key : PyStr) (c c' : Logical) : Prop where
  files : c.files d = c'.files d
  overrides : c.overrides d = c'.overrides d
  failures : c.failures key = c'.failures key

section Agreement

variable {d : Dims} {key : PyStr} {c c' : Logical}

theorem AgreeAt.refl (d : Dims) (key : PyStr) (c : Logical) : AgreeAt d key c c := ⟨rfl, rfl, rfl⟩

theorem AgreeAt.trans {c'' : Logical} (h : AgreeAt d key c c') (h' : AgreeAt d key c' c'') : AgreeAt d key c c'' :=
  ⟨h.files.trans h'.files, h.overrides.trans h'.overrides, h.failures.trans h'.failures⟩

/-- The overrides after an effect. -/
theorem apply_overrides (c : Logical) (e : Effect) (d : Dims) :
    (e.apply c).overrides d =
      match e with
      | .quarantine dims _ _ => if dims = d then fun _ => none else c.overrides d
      | .delete dims _ => if dims = d then fun _ => none else c.overrides d
      | _ => c.overrides d := by
  have hupdate : ∀ dims : Dims, Function.update c.overrides dims (fun _ => none) d =
      if dims = d then fun _ => none else c.overrides d := by
    intro dims
    by_cases h : dims = d
    · rw [h, Function.update_self, if_pos rfl]
    · rw [Function.update_of_ne (Ne.symm h), if_neg h]
  cases e with
  | nothing => rfl
  | failure key text => rfl
  | write written => rfl
  | quarantine dims effKey text => exact hupdate dims
  | delete dims key => exact hupdate dims

/-- **The same effect keeps two catalogs in agreement.** -/
theorem AgreeAt.apply (h : AgreeAt d key c c') (e : Effect) : AgreeAt d key (e.apply c) (e.apply c') where
  files := by rw [Effect.apply_files, Effect.apply_files, h.files]
  overrides := by
    rw [apply_overrides, apply_overrides, h.overrides]
  failures := by rw [Effect.apply_failures, Effect.apply_failures, h.failures]

theorem AgreeAt.foldl (h : AgreeAt d key c c') (effects : List Effect) :
    AgreeAt d key (effects.foldl Effect.apply c) (effects.foldl Effect.apply c') := by
  induction effects generalizing c c' with
  | nil => exact h
  | cons e effects ih => exact ih (h.apply e)

/-- An effect about another recording and another key changes nothing here. -/
theorem agreeAt_apply {e : Effect} (hd : e.dims ≠ some d) (hkey : e.failureKey ≠ some key) (c : Logical) :
    AgreeAt d key (e.apply c) c where
  files := by rw [Effect.apply_files, if_neg hd]
  overrides := by
    rw [apply_overrides]
    cases e with
    | nothing => rfl
    | failure key text => rfl
    | write written => rfl
    | quarantine dims effKey text => exact if_neg fun h => hd (congrArg some h)
    | delete dims key => exact if_neg fun h => hd (congrArg some h)
  failures := by rw [Effect.apply_failures, if_neg hkey]

theorem agreeAt_foldl {effects : List Effect} (hd : ∀ e ∈ effects, e.dims ≠ some d)
    (hkey : ∀ e ∈ effects, e.failureKey ≠ some key) (c : Logical) : AgreeAt d key (effects.foldl Effect.apply c) c := by
  induction effects generalizing c with
  | nil => exact AgreeAt.refl d key c
  | cons e effects ih =>
      have hfirst := agreeAt_apply (hd e List.mem_cons_self) (hkey e List.mem_cons_self) c
      exact (ih (fun e' he' => hd e' (List.mem_cons_of_mem _ he')) (fun e' he' => hkey e' (List.mem_cons_of_mem _ he'))
        (e.apply c)).trans hfirst

end Agreement

/-! ### Counting -/

section Counting

variable {source : Source} {c : Logical}

theorem triaged_add (listings : List Listing) (tally : Tally) (status : Status) :
    triaged source c listings (tally.add status) = (triaged source c listings tally).add status := by
  induction listings generalizing tally with
  | nil => rfl
  | cons lst listings ih =>
      rw [triaged, triaged, List.foldl_cons, List.foldl_cons]
      cases triage source c lst with
      | unparseable =>
          show triaged source c listings ((tally.add status).add .failed) = _
          rw [add_comm]
          exact ih (tally.add .failed)
      | skipped =>
          show triaged source c listings ((tally.add status).add .skipped) = _
          rw [add_comm]
          exact ih (tally.add .skipped)
      | queued job => exact ih tally

theorem tallied_add (results : List (CatalogResult × Effect)) (tally : Tally) (status : Status) :
    tallied (tally.add status) results = (tallied tally results).add status := by
  induction results generalizing tally with
  | nil => rfl
  | cons r results ih =>
      rw [tallied, tallied, List.foldl_cons, List.foldl_cons, add_comm]
      exact ih (tally.add r.1.status)

/-- The classification counts the listings in any order. -/
theorem triaged_perm {listings listings' : List Listing} (hp : listings.Perm listings') (tally : Tally) :
    triaged source c listings tally = triaged source c listings' tally := by
  refine hp.foldl_eq' (fun a _ b _ tally => ?_) tally
  cases triage source c a <;> cases triage source c b <;> rfl

/-- The counts of two tallies. -/
structure SameCounts (tally tally' : Tally) : Prop where
  cataloged : tally.cataloged = tally'.cataloged
  skipped : tally.skipped = tally'.skipped
  failed : tally.failed = tally'.failed

theorem sameCounts_deleted (tally : Tally) (status : Status) (n m : ℕ) :
    SameCounts { tally.add status with deleted := n } (Tally.add { tally with deleted := m } status) := by
  cases status <;> exact ⟨rfl, rfl, rfl⟩

end Counting

/-! ### The other objects -/

section Others

variable {env : Env} {source : Source} {listings : List Listing} {db db₁ db₂ : Db}

/-- An object ends the same way in two catalogs reached from `db`: its row with its overrides, the id of a row that there
was before, and its failure. -/
structure SameEnding (source : Source) (lst : Listing) (db db₁ db₂ : Db) : Prop where
  resolved : ∀ d effKey, resolution source lst.key = some (d, effKey) → AgreeAt d effKey (view db₁) (view db₂) ∧
    ∀ r r₁ r₂, rowOf db d = some r → rowOf db₁ d = some r₁ → rowOf db₂ d = some r₂ → r₁.id = r₂.id
  unparseable : resolution source lst.key = none → (view db₁).failures lst.key = (view db₂).failures lst.key

/-- No object that does not resolve has the effective key of another one. -/
def RawKeysApart (source : Source) (listings : List Listing) : Prop :=
  ∀ lst ∈ listings, resolution source lst.key = none → ∀ lst' ∈ listings, ∀ d effKey,
    resolution source lst'.key = some (d, effKey) → effKey ≠ lst.key

/-- **The others are spared**: the reconcile returns, and every other object ends as it does in any run in which the object
was not listed, and is counted as it is there. -/
def Spares (env : Env) (source : Source) (workers : Workers) (listings : List Listing) (w : World) : Prop :=
  ∃ tally w₁, fullReconcile env source workers w = (.ok tally, w₁) ∧ ∀ bad ∈ listings, ∀ workers',
    ∃ tally' w₂, fullReconcile env (unlisted source bad) workers' w = (.ok tally', w₂) ∧
      (∃ status, SameCounts tally (tally'.add status)) ∧
      ∀ lst ∈ listings.erase bad, SameEnding source lst w.conn.working w₁.conn.committed w₂.conn.committed

variable {order order' : List Job} {results results' : List (CatalogResult × Effect)} {bad : Listing}

/-- What the jobs came to, with and without the object. -/
theorem results_perm (h : Reconciled env source listings order results db db₁)
    (h' : Reconciled env source (listings.erase bad) order' results' db db₂) (hbad : bad ∈ listings) :
    match triage source (view db) bad with
    | .queued job => ∃ r, effectOf (extracted source job) = .ok r ∧ results.Perm (r :: results')
    | _ => results.Perm results' := by
  have hjobs : (jobsOf source (view db) listings).Perm
      ((triage source (view db) bad).job.toList ++ jobsOf source (view db) (listings.erase bad)) := by
    refine ((List.perm_cons_erase hbad).filterMap _).trans ?_
    rw [List.filterMap_cons]
    cases (triage source (view db) bad).job with
    | none => exact List.Perm.refl _
    | some job => exact List.Perm.refl _
  have horder := h.jobs.trans (hjobs.trans (h'.jobs.symm.append_left _))
  cases htriage : triage source (view db) bad with
  | unparseable =>
      rw [htriage] at horder
      exact come_perm h.come h'.come (horder.map _)
  | skipped =>
      rw [htriage] at horder
      exact come_perm h.come h'.come (horder.map _)
  | queued job =>
      rw [htriage] at horder
      have hmem : job ∈ order := horder.mem_iff.mpr List.mem_cons_self
      obtain ⟨r, _, hout⟩ := exists_right_of_mem h.come (List.mem_map_of_mem hmem)
      exact ⟨r, hout, come_perm h.come (List.Forall₂.cons hout h'.come) (horder.map _)⟩

/-- The counts, with and without the object. -/
theorem counts_without (h : Reconciled env source listings order results db db₁)
    (h' : Reconciled env source (listings.erase bad) order' results' db db₂) (hbad : bad ∈ listings) :
    ∃ status, tallied (triaged source (view db) listings Tally.zero) results =
      (tallied (triaged source (view db) (listings.erase bad) Tally.zero) results').add status := by
  have hperm := results_perm h h' hbad
  rw [triaged_perm (List.perm_cons_erase hbad), triaged, List.foldl_cons]
  cases htriage : triage source (view db) bad with
  | unparseable =>
      rw [htriage] at hperm
      refine ⟨.failed, ?_⟩
      rw [tallied_perm hperm, ← tallied_add, ← triaged_add]
      rfl
  | skipped =>
      rw [htriage] at hperm
      refine ⟨.skipped, ?_⟩
      rw [tallied_perm hperm, ← tallied_add, ← triaged_add]
      rfl
  | queued job =>
      rw [htriage] at hperm
      obtain ⟨r, _, hresults⟩ := hperm
      refine ⟨r.1.status, ?_⟩
      rw [tallied_perm hresults, ← tallied_add]
      rfl

/-- What recording the unparseable keys does at a recording and a key that no unparseable object has. -/
theorem agreeAt_unparseable {d : Dims} {key : PyStr} (c : Logical)
    (hkey : ∀ lst ∈ listings, resolution source lst.key = none → lst.key ≠ key) :
    AgreeAt d key ((unparseableOf source c listings).foldl Effect.apply c) c := by
  refine agreeAt_foldl (fun e he => ?_) (fun e he => ?_) c
  · obtain ⟨_, _, _, rfl⟩ := mem_unparseableOf he
    exact fun h => by cases h
  · obtain ⟨lst, hlst, hres, rfl⟩ := mem_unparseableOf he
    exact fun h => hkey lst hlst hres (Option.some.inj h)

/-- **The other objects of two reconciles**, one of them without the object. -/
theorem Reconciled.sameEnding (h : Reconciled env source listings order results db db₁)
    (h' : Reconciled env source (listings.erase bad) order' results' db db₂) (hbad : bad ∈ listings)
    (hdistinct : (listedDims source listings).Nodup) (hraw : RawKeysApart source listings) {lst : Listing}
    (hlst : lst ∈ listings.erase bad) : SameEnding source lst db db₁ db₂ := by
  have hsub : ∀ {l : Listing}, l ∈ listings.erase bad → l ∈ listings := List.mem_of_mem_erase
  have hdims : (listedDims source listings).Perm
      (((resolution source bad.key).map Prod.fst).toList ++ listedDims source (listings.erase bad)) := by
    refine ((List.perm_cons_erase hbad).filterMap _).trans ?_
    rw [List.filterMap_cons]
    cases (resolution source bad.key).map Prod.fst with
    | none => exact List.Perm.refl _
    | some d => exact List.Perm.refl _
  have hsplit := hdims.nodup_iff.mp hdistinct
  have hdistinct' : (listedDims source (listings.erase bad)).Nodup := (List.nodup_append.mp hsplit).2.1
  refine ⟨fun d effKey hres => ⟨?_, fun r r₁ r₂ hr hr₁ hr₂ => ?_⟩, fun hres => ?_⟩
  · have hd : d ∈ listedDims source (listings.erase bad) := mem_listedDims.mpr ⟨lst, hlst, by rw [hres]; rfl⟩
    have hd₁ : d ∈ listedDims source listings := mem_listedDims.mpr ⟨lst, hsub hlst, by rw [hres]; rfl⟩
    have hother : ∀ d' k', resolution source bad.key = some (d', k') → d' ≠ d ∧ k' ≠ effKey := by
      intro d' k' hbadRes
      have hne : d' ≠ d := by
        rw [hbadRes] at hsplit
        rintro rfl
        exact (List.nodup_cons.mp hsplit).1 hd
      refine ⟨hne, ?_⟩
      rintro rfl
      have hp := (trustedDims_eq_some hbadRes).1
      rw [(trustedDims_eq_some hres).1] at hp
      exact hne (Option.some.inj hp).symm
    have hkey : ∀ l ∈ listings, resolution source l.key = none → l.key ≠ effKey :=
      fun l hl hnone heq => hraw l hl hnone lst (hsub hlst) d effKey hres heq.symm
    have hstart : AgreeAt d effKey ((unparseableOf source (Builder.view db) listings).foldl Effect.apply (Builder.view db))
        ((unparseableOf source (Builder.view db) (listings.erase bad)).foldl Effect.apply (Builder.view db)) := by
      have h1 : AgreeAt d effKey ((unparseableOf source (Builder.view db) listings).foldl Effect.apply (Builder.view db))
          (Builder.view db) := agreeAt_unparseable _ hkey
      have h2 : AgreeAt d effKey
          ((unparseableOf source (Builder.view db) (listings.erase bad)).foldl Effect.apply (Builder.view db))
          (Builder.view db) := agreeAt_unparseable _ fun l hl => hkey l (hsub hl)
      exact ⟨h1.files.trans h2.files.symm, h1.overrides.trans h2.overrides.symm, h1.failures.trans h2.failures.symm⟩
    have heffects : AgreeAt d effKey
        ((effectsOf source (Builder.view db) listings results).foldl Effect.apply (Builder.view db))
        ((effectsOf source (Builder.view db) (listings.erase bad) results').foldl Effect.apply (Builder.view db)) := by
      have hapart := apart_of_come hdistinct h.jobs h.come
      have hperm := results_perm h h' hbad
      rw [effectsOf, effectsOf, List.foldl_append, List.foldl_append]
      cases htriage : triage source (Builder.view db) bad with
      | unparseable =>
          rw [htriage] at hperm
          rw [Effect.foldl_apply_perm (hperm.map _) hapart]
          exact hstart.foldl _
      | skipped =>
          rw [htriage] at hperm
          rw [Effect.foldl_apply_perm (hperm.map _) hapart]
          exact hstart.foldl _
      | queued job =>
          rw [htriage] at hperm
          obtain ⟨r, hout, hresults⟩ := hperm
          rw [Effect.foldl_apply_perm (hresults.map _) hapart, List.map_cons, List.foldl_cons]
          -- The effect of the object comes first, and is about neither.
          have hjob : job ∈ jobsOf source (Builder.view db) [bad] :=
            List.mem_filterMap.mpr ⟨bad, List.mem_singleton_self bad, by rw [htriage]; rfl⟩
          obtain ⟨_, hmem, hjobKey, _, hbadRes, _⟩ := mem_jobsOf.mp hjob
          rw [List.mem_singleton.mp hmem] at hbadRes
          obtain ⟨hne, hkne⟩ := hother _ _ hbadRes
          have heffect := jobEffect_of_effectOf hout
          refine ((agreeAt_apply ?_ ?_ _).trans hstart).foldl _
          · generalize r.2 = effect at heffect ⊢
            cases heffect with
            | nothing => exact fun h => by cases h
            | quarantine => exact fun h => hne (Option.some.inj h)
            | write => exact fun h => hne (Option.some.inj h)
          · generalize r.2 = effect at heffect ⊢
            cases heffect with
            | nothing => exact fun h => by cases h
            | quarantine => exact fun h => hkne (Option.some.inj h)
            | write => exact fun h => hkne (Option.some.inj h)
    rw [h.view, h'.view]
    refine ⟨?_, ?_, heffects.failures⟩
    · show (if d ∈ listedDims source listings then _ else none) = if d ∈ listedDims source (listings.erase bad) then _ else none
      rw [if_pos hd₁, if_pos hd, heffects.files]
    · funext k
      show (if d ∈ listedDims source listings then _ else none) = if d ∈ listedDims source (listings.erase bad) then _ else none
      rw [if_pos hd₁, if_pos hd, heffects.overrides]
  · exact (h.keepsId hdistinct hr hr₁).trans (h'.keepsId hdistinct' hr hr₂).symm
  · rw [h.of_unparseable (hsub hlst) hres fun l hl d k hl' => hraw lst (hsub hlst) hres l hl d k hl',
      h'.of_unparseable hlst hres fun l hl d k hl' => hraw lst (hsub hlst) hres l (hsub hl) d k hl']

/-- **A reconcile spares the others exactly if what becomes of every listed object can be recorded**, for listed objects
with different identities and raw keys apart from effective keys. -/
theorem spares_iff (hinj : FingerprintInjective env) (hs : source.Unchanging) {w : World} (hreached : Reached env w)
    (hcoherent : CachesCoherent w) (hlist : source.listAll 0 = .ok listings)
    (hdistinct : (listedDims source listings).Nodup) (hraw : RawKeysApart source listings) (workers : Workers) :
    Spares env source workers listings w ↔ ∀ lst ∈ listings, Recordable source (view w.conn.working) lst := by
  constructor
  · intro hspares
    obtain ⟨tally, w₁, hrun, _⟩ := hspares
    rcases fullReconcile_reached hinj hs hreached hcoherent hlist workers with
      ⟨_, e, w', hraises⟩ | ⟨results, db', t', _, hdone⟩
    · rw [hrun] at hraises
      cases hraises
    · intro lst hlst
      by_contra hbad
      exact hdone.not_blocked (blocked_iff.mpr ⟨lst, hlst, hbad⟩)
  · intro hrecordable
    have hfree : ∀ listings' : List Listing, (∀ lst ∈ listings', lst ∈ listings) →
        ¬Blocked source (view w.conn.working) listings' := by
      intro listings' hsub hblocked
      obtain ⟨lst, hlst, hbad⟩ := blocked_iff.mp hblocked
      exact hbad (hrecordable lst (hsub lst hlst))
    rcases fullReconcile_reached hinj hs hreached hcoherent hlist workers with
      ⟨hblocked, _⟩ | ⟨results, db₁, t₁, hrun, hdone⟩
    · exact absurd hblocked (hfree listings fun _ h => h)
    refine ⟨_, _, hrun, fun bad hbad workers' => ?_⟩
    have hlist' : (unlisted source bad).listAll 0 = .ok (listings.erase bad) := by
      show (source.listAll 0).map _ = _
      rw [hlist]
      rfl
    rcases fullReconcile_reached hinj (unchanging_unlisted hs bad) hreached hcoherent hlist' workers' with
      ⟨hblocked, _⟩ | ⟨results', db₂, t₂, hrun', hdone'⟩
    · exact absurd hblocked (hfree (listings.erase bad) fun _ h => List.mem_of_mem_erase h)
    · -- The source without the object resolves and reads as the source does.
      have hsame : Reconciled env source (listings.erase bad)
          (appliedOrder workers' (jobsOf source (view w.conn.working) (listings.erase bad))) results' w.conn.working db₂ :=
        ⟨hdone'.recordable, hdone'.jobs, hdone'.come, hdone'.inv, hdone'.changes⟩
      obtain ⟨status, hcounts⟩ := counts_without hdone hsame hbad
      refine ⟨_, _, hrun', ⟨status, ?_⟩, fun lst hlst => hdone.sameEnding hsame hbad hdistinct hraw hlst⟩
      rw [hcounts]
      exact sameCounts_deleted _ status _ _

/-- Without overrides raw keys are apart from effective keys. -/
theorem rawKeysApart_of_plain (hplain : ∀ key, source.intendedKey 0 key = none) : RawKeysApart source listings := by
  intro lst _ hnone lst' _ d effKey hres hkey
  have hown : resolution source lst'.key = trustedDims none lst'.key := by
    rw [resolution, hplain]
  rw [hown] at hres
  obtain ⟨_, _, heff⟩ := (trustedDims_none_iff lst'.key d effKey).mp hres
  rw [resolution, hplain, ← hkey, heff, hres] at hnone
  cases hnone

end Others

/-! ### A file whose name is no text -/

theorem coherent_emptyWorld : CachesCoherent emptyWorld := cachesCoherent_of_eq (opened_caches Db.empty 0)

theorem spares_iff_mixed : Spares oneTopicEnv mixedSource (.pool reversedPool) mixedListings emptyWorld := by
  refine (spares_iff fingerprintInjective_oneTopicEnv unchanging_mixedSource (Reached.empty 0) coherent_emptyWorld
    listAll_mixedSource nodup_listedDims_mixed (rawKeysApart_of_plain fun _ => rfl) (.pool reversedPool)).mpr
      fun lst hlst => ?_
  by_contra hbad
  exact not_blocked_of_bindable bindable_mixedSource _ (blocked_iff.mpr ⟨lst, hlst, hbad⟩)

/-- A file whose name holds a byte that is no UTF-8. -/
def strayPath : PyStr := [0xDC80] ++ py ".mcap"

/-- A directory with that file. -/
def strayFs : LocalFs where
  stat _ path := if path = strayPath then some (100, 5) else none
  openSummary _ _ := .ok none
  s3Key _ _ := .ok none
  files _ := [strayPath]
  stable _ _ := true

/-- **A file whose name is no text stops the run**: its failure cannot be recorded, and nothing is swept or stamped. -/
theorem surrogate_not_spares : (localSource strayFs).listAll 0 = .ok [⟨strayPath, ⟨100, localEtag 100 5, 5⟩⟩] ∧
    Reached oneTopicEnv emptyWorld ∧
      ¬Spares oneTopicEnv (localSource strayFs) .one [⟨strayPath, ⟨100, localEtag 100 5, 5⟩⟩] emptyWorld := by
  refine ⟨by decide +kernel, Reached.empty 0, ?_⟩
  have hraises : (fullReconcile oneTopicEnv (localSource strayFs) .one emptyWorld).1.toOption = none := by decide +kernel
  rintro ⟨tally, w₁, hrun, _⟩
  rw [hrun] at hraises
  cases hraises

end McapCatalog.Builder
