import McapCatalog.ReconcileRun

/-!
# What a reconcile leaves behind

The logical catalog after a full reconcile of an unchanging source whose parseable objects resolve to different
identities.

* `JobEffect` — the three things a job can come to, and `apart_of_come`: those of different jobs are apart;
* `Reconciled.view` — **the logical catalog afterwards**: the effects applied, then everything unlisted dropped;
* `Reconciled.complete`, `Reconciled.keepsId` — every row belongs to a listed identity, under the id it had.
-/

namespace McapCatalog.Builder

open McapCatalog.PyText McapCatalog.PyError McapCatalog.KeyParse McapCatalog.McapSummary
open McapCatalog.Storage McapCatalog.Tables McapCatalog.RowidTable McapCatalog.KeyedRows
open McapCatalog.Connection McapCatalog.CatalogDb McapCatalog.Reconcile

/-! ### Jobs -/

/-- What resolves has parsed. -/
theorem trustedDims_eq_some {intended : Option PyStr} {key effKey : PyStr} {dims : Dims}
    (h : trustedDims intended key = some (dims, effKey)) :
    parseHiveKey effKey = some dims ∧ rebuildHiveKey dims = lstrip effKey (cp '/') := by
  rw [trustedDims] at h
  split at h
  · cases h
  · rename_i d hparse
    split at h
    · cases h
    · rename_i hround
      cases h
      exact ⟨hparse, not_not.mp hround⟩

/-- What an effect of a job can be. -/
inductive JobEffect (job : Job) : Effect → Prop where
  | nothing : JobEffect job .nothing
  | quarantine (text : PyStr) : JobEffect job (.quarantine job.dims job.effKey text)
  | write (summary : FileSummary) : JobEffect job (.write ⟨job.dims, job.effKey, job.stat, summary⟩)

theorem unlessError_eq_ok {α : Type} {error : Option PyErr} {a b : α} (h : unlessError error a = .ok b) :
    error = none ∧ a = b := by
  cases error with
  | none => exact ⟨rfl, Except.ok.inj h⟩
  | some e => cases h

theorem writeEffect_eq_ok {written : Written} {r : CatalogResult × Effect} (h : writeEffect written = .ok r) :
    (transactionError true written = none ∧ r = (⟨.cataloged, []⟩, .write written)) ∨
      ∃ e, transactionError true written = some e ∧
        r = (⟨.failed, e.str⟩, .quarantine written.dims written.effKey e.errorText) := by
  rw [writeEffect] at h
  rcases he : transactionError true written with _ | e
  · rw [he] at h
    exact Or.inl ⟨rfl, (Except.ok.inj h).symm⟩
  · rw [he] at h
    exact Or.inr ⟨e, rfl, (unlessError_eq_ok h).2.symm⟩

/-- **What a job comes to**, read at the given moments. -/
theorem effectOf_extract (source : Source) (job : Job) (a b : ℕ) : effectOf (job.extract source a b) =
    match source.readSummary a job.key job.stat.size with
    | .ok summary =>
      match bindError (nameParams job.dims) with
      | some e => .error e
      | none => writeEffect ⟨job.dims, job.effKey, job.stat, summary⟩
    | .error e =>
      match source.stat b job.key with
      | .ok none => .ok (⟨.failed, py "vanished"⟩, .nothing)
      | _ => unlessError ((bindError (nameParams job.dims)).or (quarantineError job.dims job.effKey e.errorText))
          (⟨.failed, e.errorText⟩, .quarantine job.dims job.effKey e.errorText) := by
  rw [Job.extract, extractSummary]
  rcases source.readSummary a job.key job.stat.size with e | summary
  · simp only
    rcases source.stat b job.key with e' | found
    · rfl
    · cases found <;> rfl
  · rfl

/-- What a job of an unchanging source comes to. -/
theorem effectOf_extracted (source : Source) (job : Job) : effectOf (extracted source job) =
    match source.readSummary 0 job.key job.stat.size with
    | .ok summary =>
      match bindError (nameParams job.dims) with
      | some e => .error e
      | none => writeEffect ⟨job.dims, job.effKey, job.stat, summary⟩
    | .error e =>
      match source.stat 0 job.key with
      | .ok none => .ok (⟨.failed, py "vanished"⟩, .nothing)
      | _ => unlessError ((bindError (nameParams job.dims)).or (quarantineError job.dims job.effKey e.errorText))
          (⟨.failed, e.errorText⟩, .quarantine job.dims job.effKey e.errorText) :=
  effectOf_extract source job 0 0

theorem jobEffect_of_extract {source : Source} {job : Job} {a b : ℕ} {r : CatalogResult × Effect}
    (h : effectOf (job.extract source a b) = .ok r) : JobEffect job r.2 := by
  rw [effectOf_extract] at h
  split at h
  · rename_i summary _
    split at h
    · cases h
    · rcases writeEffect_eq_ok h with ⟨_, rfl⟩ | ⟨e, _, rfl⟩
      · exact .write summary
      · exact .quarantine e.errorText
  · rename_i e _
    split at h
    · cases h
      exact .nothing
    · rw [← (unlessError_eq_ok h).2]
      exact .quarantine e.errorText

theorem jobEffect_of_effectOf {source : Source} {job : Job} {r : CatalogResult × Effect}
    (h : effectOf (extracted source job) = .ok r) : JobEffect job r.2 := jobEffect_of_extract h

/-- An effect of a job is about the job's identity. -/
theorem JobEffect.dims_eq {job : Job} {e : Effect} (h : JobEffect job e) {d : Dims} (hd : e.dims = some d) : d = job.dims := by
  cases h <;> cases hd <;> rfl

/-- An effect of a job is under the job's effective key. -/
theorem JobEffect.failureKey_eq {job : Job} {e : Effect} (h : JobEffect job e) {k : PyStr} (hk : e.failureKey = some k) :
    k = job.effKey := by
  cases h <;> cases hk <;> rfl

/-- Effects of jobs with different identities and keys are apart. -/
theorem JobEffect.apart {job job' : Job} {a b : Effect} (ha : JobEffect job a) (hb : JobEffect job' b)
    (hd : job.dims ≠ job'.dims) (hk : job.effKey ≠ job'.effKey) : Effect.Apart a b := by
  refine ⟨fun d h h' => hd ?_, fun k h h' => hk ?_⟩
  · rw [← ha.dims_eq h, ← hb.dims_eq h']
  · rw [← ha.failureKey_eq h, ← hb.failureKey_eq h']

/-- A relation between neighbours carries over to what they come to. -/
theorem pairwise_of_forall₂ {α β : Type} {R : α → β → Prop} {S : α → α → Prop} {S' : β → β → Prop}
    (hS : ∀ a a' b b', R a b → R a' b' → S a a' → S' b b') {l : List α} {l' : List β} (h : List.Forall₂ R l l')
    (hl : l.Pairwise S) : l'.Pairwise S' := by
  induction h with
  | nil => exact List.Pairwise.nil
  | @cons a b as bs hab hrest ih =>
      rw [List.pairwise_cons] at hl ⊢
      refine ⟨fun b' hb' => ?_, ih hl.2⟩
      obtain ⟨a', ha', hab'⟩ := exists_right_of_mem (List.Forall₂.flip hrest) hb'
      exact hS a a' b b' hab hab' (hl.1 a' ha')

/-! ### The jobs of a reconcile -/

variable {env : Env} {source : Source} {listings : List Listing} {c : Logical}

/-- The identities the listed objects resolve to. -/
def listedDims (source : Source) (listings : List Listing) : List Dims :=
  listings.filterMap fun lst => (resolution source lst.key).map Prod.fst

theorem mem_listedDims {d : Dims} : d ∈ listedDims source listings ↔
    ∃ lst ∈ listings, (resolution source lst.key).map Prod.fst = some d := List.mem_filterMap

/-- A queued job is a listing's, resolved, whose etag is not the stored one. -/
theorem mem_jobsOf {job : Job} : job ∈ jobsOf source c listings ↔ ∃ lst ∈ listings,
    lst.key = job.key ∧ lst.stat = job.stat ∧ resolution source lst.key = some (job.dims, job.effKey) ∧
      (c.files job.dims).map (fun written => written.stat.etag) ≠ some lst.stat.etag := by
  rw [jobsOf, List.mem_filterMap]
  refine exists_congr fun lst => and_congr_right fun _ => ?_
  rw [triage]
  rcases hres : resolution source lst.key with _ | ⟨dims, effKey⟩
  · simp [Triage.job]
  · simp only
    split
    · rename_i hsame
      simp only [Triage.job, reduceCtorEq, false_iff, not_and]
      rintro _ _ heq
      cases heq
      exact fun h => h hsame
    · rename_i hdiff
      simp only [Triage.job, Option.some.injEq]
      constructor
      · rintro rfl
        exact ⟨rfl, rfl, rfl, hdiff⟩
      · rintro ⟨hk, hs, heq, _⟩
        cases heq
        cases job
        simp only at hk hs
        rw [hk, hs]

theorem jobsOf_apart (hdistinct : (listedDims source listings).Nodup) :
    (jobsOf source c listings).Pairwise fun a b => a.dims ≠ b.dims ∧ a.effKey ≠ b.effKey := by
  induction listings with
  | nil => exact List.Pairwise.nil
  | cons lst listings ih =>
      have hrest : (listedDims source listings).Nodup := by
        rw [listedDims, List.filterMap_cons] at hdistinct
        split at hdistinct
        · exact hdistinct
        · exact (List.nodup_cons.mp hdistinct).2
      rw [jobsOf, List.filterMap_cons]
      rcases htriage : (triage source c lst).job with _ | job
      · exact ih hrest
      · refine List.pairwise_cons.mpr ⟨fun job' hjob' => ?_, ih hrest⟩
        obtain ⟨_, hmem, _, _, hres, _⟩ := mem_jobsOf.mp
          (List.mem_filterMap.mpr ⟨lst, List.mem_singleton_self lst, htriage⟩ : job ∈ jobsOf source c [lst])
        rw [List.mem_singleton.mp hmem] at hres
        obtain ⟨lst', hlst', _, _, hres', _⟩ := mem_jobsOf.mp hjob'
        have hne : job.dims ≠ job'.dims := by
          intro heq
          rw [listedDims, List.filterMap_cons, hres, Option.map_some, List.nodup_cons] at hdistinct
          apply hdistinct.1
          exact List.mem_filterMap.mpr ⟨lst', hlst', by rw [hres', heq]; rfl⟩
        refine ⟨hne, fun heq => hne ?_⟩
        have hp := (trustedDims_eq_some hres).1
        rw [heq, (trustedDims_eq_some hres').1] at hp
        exact (Option.some.inj hp).symm

/-- **What the jobs of a reconcile come to is pairwise apart.** -/
theorem apart_of_come (hdistinct : (listedDims source listings).Nodup) {order : List Job}
    {results : List (CatalogResult × Effect)} (hjobs : order.Perm (jobsOf source c listings))
    (hcome : Come (order.map (extracted source)) results) : (results.map Prod.snd).Pairwise Effect.Apart := by
  have hsymm : Std.Symm fun a b : Job => a.dims ≠ b.dims ∧ a.effKey ≠ b.effKey :=
    ⟨fun _ _ h => ⟨h.1.symm, h.2.symm⟩⟩
  have hpair := (hjobs.pairwise_iff (fun h => hsymm.symm _ _ h)).mpr (jobsOf_apart hdistinct)
  rw [Come, List.forall₂_map_left_iff] at hcome
  rw [List.pairwise_map]
  have hapart : ∀ (a a' : Job) (b b' : CatalogResult × Effect), effectOf (extracted source a) = .ok b →
      effectOf (extracted source a') = .ok b' → (a.dims ≠ a'.dims ∧ a.effKey ≠ a'.effKey) →
        Effect.Apart b.2 b'.2 :=
    fun _ _ _ _ h h' hne => (jobEffect_of_effectOf h).apart (jobEffect_of_effectOf h') hne.1 hne.2
  exact pairwise_of_forall₂ hapart hcome hpair

/-! ### After the sweep -/

section Swept

variable {db db' : Db}

theorem isListed_of_fileKey {d : Dims} {key : FileKey} (hkey : fileKey db d = some key) :
    isListed source listings db key = true ↔ d ∈ listedDims source listings := by
  rw [isListed, List.any_eq_true, mem_listedDims]
  refine exists_congr fun lst => and_congr_right fun _ => ?_
  rw [decide_eq_true_eq]
  constructor
  · intro h
    obtain ⟨d', hres, hkey'⟩ := Option.bind_eq_some_iff.mp h
    rw [hres, fileKey_injective hkey' hkey]
  · intro h
    rw [h]
    exact hkey

theorem rowOf_swept (h : Swept (isListed source listings db) db db') (d : Dims) :
    rowOf db' d = if d ∈ listedDims source listings then rowOf db d else none := by
  apply Option.ext
  intro r
  have hmem : rowOf db' d = some r ↔ (r ∈ db.files.rows ∧ isListed source listings db r.key = true) ∧
      fileKey db d = some r.key := by
    rw [rowOf_eq_some_iff, h.keys, h.rows, List.mem_filter]
  rw [hmem]
  split
  · rename_i hd
    rw [rowOf_eq_some_iff]
    exact ⟨fun hr => ⟨hr.1.1, hr.2⟩, fun hr => ⟨⟨hr.1, (isListed_of_fileKey hr.2).mpr hd⟩, hr.2⟩⟩
  · rename_i hd
    constructor
    · rintro ⟨⟨_, hl⟩, hkey⟩
      exact absurd ((isListed_of_fileKey hkey).mp hl) hd
    · intro hr
      cases hr

/-- Every row that the sweep leaves belongs to a listed identity. -/
theorem complete_swept (h : Swept (isListed source listings db) db db') {r : Row FileKey FileCols}
    (hr : r ∈ db'.files.rows) : ∃ d ∈ listedDims source listings, rowOf db' d = some r := by
  have hr' := hr
  rw [h.rows, List.mem_filter] at hr'
  obtain ⟨lst, hlst, heq⟩ := List.any_eq_true.mp hr'.2
  rw [decide_eq_true_eq] at heq
  obtain ⟨d, hres, hkey⟩ := Option.bind_eq_some_iff.mp heq
  refine ⟨d, mem_listedDims.mpr ⟨lst, hlst, hres⟩, rowOf_eq_some_iff.mpr ⟨hr, ?_⟩⟩
  rw [h.keys, hkey]

/-- The logical catalog without what is not listed. -/
def Logical.listedOnly (c : Logical) (listed : Dims → Prop) [DecidablePred listed] : Logical where
  files d := if listed d then c.files d else none
  overrides d k := if listed d then c.overrides d k else none
  failures := c.failures

theorem view_swept (h : Swept (isListed source listings db) db db') :
    view db' = (view db).listedOnly fun d => d ∈ listedDims source listings := by
  ext1
  · funext d
    show (rowOf db' d).map _ = if _ then (rowOf db d).map _ else none
    rw [rowOf_swept h]
    split <;> rfl
  · funext d k
    show (rowOf db' d).bind _ = if _ then (rowOf db d).bind _ else none
    rcases hr : rowOf db' d with _ | r
    · rw [rowOf_swept h] at hr
      split at hr
      · rename_i hd
        rw [if_pos hd, hr]
        rfl
      · rename_i hd
        rw [if_neg hd]
        rfl
    · rw [Option.bind_some, h.overrides r (rowOf_eq_some_iff.mp hr).1]
      rw [rowOf_swept h] at hr
      split at hr
      · rename_i hd
        rw [if_pos hd, hr]
        rfl
      · cases hr
  · show (fun k => (db'.catalogFailures.lookup k).map Prod.snd) = _
    rw [h.failures]
    rfl

end Swept

/-! ### After the run -/

section Reconciled

variable {db db' : Db} {order : List Job} {results : List (CatalogResult × Effect)}

/-- The effects of a reconcile. -/
def effectsOf (source : Source) (c : Logical) (listings : List Listing)
    (results : List (CatalogResult × Effect)) : List Effect :=
  unparseableOf source c listings ++ results.map Prod.snd

theorem Reconciled.steps (h : Reconciled env source listings order results db db') :
    ∃ db₂, Steps env (effectsOf source (Builder.view db) listings results) db db₂ ∧
      Swept (isListed source listings db₂) db₂ db' := by
  obtain ⟨_, db₂, h1, h2, hswept⟩ := h.changes
  exact ⟨db₂, h1.append h2, hswept⟩

/-- **The logical catalog after a reconcile.** -/
theorem Reconciled.view (h : Reconciled env source listings order results db db') :
    Builder.view db' = ((effectsOf source (Builder.view db) listings results).foldl Effect.apply
      (Builder.view db)).listedOnly fun d => d ∈ listedDims source listings := by
  obtain ⟨db₂, hsteps, hswept⟩ := h.steps
  rw [view_swept hswept, hsteps.view]

/-- **Every row afterwards belongs to a listed identity.** -/
theorem Reconciled.complete (h : Reconciled env source listings order results db db') {r : Row FileKey FileCols}
    (hr : r ∈ db'.files.rows) : ∃ d ∈ listedDims source listings, rowOf db' d = some r := by
  obtain ⟨_, _, hswept⟩ := h.steps
  exact complete_swept hswept hr

theorem mem_unparseableOf {e : Effect} (h : e ∈ unparseableOf source c listings) :
    ∃ lst ∈ listings, resolution source lst.key = none ∧ e = .failure lst.key (py "unparseable key") := by
  obtain ⟨lst, hlst, heffect⟩ := List.mem_filterMap.mp h
  rw [triage] at heffect
  split at heffect
  · rename_i hres
    cases heffect
    exact ⟨lst, hlst, hres, rfl⟩
  · split at heffect <;> cases heffect

/-- **An identity that has a row before and after keeps its id.** -/
theorem Reconciled.keepsId (h : Reconciled env source listings order results db db')
    (hdistinct : (listedDims source listings).Nodup) {d : Dims} {r r' : Row FileKey FileCols}
    (hr : rowOf db d = some r) (hr' : rowOf db' d = some r') : r'.id = r.id := by
  obtain ⟨_, db₂, h1, h2, hswept⟩ := h.changes
  rw [rowOf_swept hswept] at hr'
  have hfirst : rowOf _ d = rowOf db d := h1.others fun e he => by
    obtain ⟨lst, _, _, rfl⟩ := mem_unparseableOf he
    exact fun hd => by cases hd
  split at hr'
  · exact h2.keepsId (apart_of_come hdistinct h.jobs h.come) (hfirst.trans hr) hr'
  · cases hr'

end Reconciled

end McapCatalog.Builder
