import McapCatalog.Sightings
import McapCatalog.CoherentRuns

/-!
# Files that cannot be read for a moment

`LocalSource` turns every `OSError` into an absence: a file whose `stat` fails is not listed, a file whose metadata cannot
be read has no override.  The sweep of `full_reconcile` then takes the absence for a deletion.

* `FlakyTree` — a file tree whose reads may fail at any moment, and its `LocalSource`;
* `NothingLost` — every row that went was of an identity without a file, or its failure is recorded in this run;
* `Recognized` — the condition on an identity that has a file: the scan meets its file, under the right name or under none;
* `nothingLost_of_recognized` — **under that condition nothing is lost**, whichever reads fail and however they complete;
* `unlisted_lost` — a file that could not be statted while it was listed.
-/

namespace McapCatalog.Builder

open McapCatalog.PyText McapCatalog.PyError McapCatalog.KeyParse McapCatalog.McapSummary McapCatalog.Storage
open McapCatalog.Tables McapCatalog.RowidTable McapCatalog.KeyedRows
open McapCatalog.Connection McapCatalog.CatalogDb McapCatalog.Reconcile McapCatalog.Worker McapCatalog.Runs
open McapCatalog.SurvivingState McapCatalog.SurvivingState.Comp

/-! ### A tree whose reads may fail -/

/-- A tree of local files, with what is in them and which reads of them fail when. -/
structure FlakyTree where
  paths : List PyStr
  distinct : paths.Nodup
  stat : PyStr → ℤ × ℤ
  s3Key : PyStr → Option PyStr
  summary : PyStr → Except PyErr (Option Summary)
  statFails : ℕ → PyStr → Bool
  keyFails : ℕ → PyStr → Option PyErr
  openFails : ℕ → PyStr → Option PyErr

namespace FlakyTree

/-- What the file system answers. -/
def fs (tree : FlakyTree) : LocalFs where
  stat t path := if path ∈ tree.paths ∧ tree.statFails t path = false then some (tree.stat path) else none
  openSummary t path :=
    match tree.openFails t path with
    | some e => .error e
    | none => tree.summary path
  s3Key t path :=
    match tree.keyFails t path with
    | some e => .error e
    | none => .ok (tree.s3Key path)
  files _ := tree.paths
  stable _ _ := true

/-- The identity a file resolves to. -/
def resolves (tree : FlakyTree) (path : PyStr) : Option Dims := (trustedDims (tree.s3Key path) path).map Prod.fst

/-- What `list_all` yields at a moment. -/
def listed (tree : FlakyTree) (t : ℕ) : List Listing :=
  (tree.paths.filter isListedPath).filterMap fun path => (tree.fs.fingerprint t path).map fun st => ⟨path, st⟩

/-- The keys under which a failure of the object of an identity is recorded: its key, and the paths of its files. -/
def Names (tree : FlakyTree) (dims : Dims) (key : PyStr) : Prop :=
  parseHiveKey key = some dims ∨ key ∈ tree.paths ∧ tree.resolves key = some dims

end FlakyTree

/-- **Nothing was lost**: every row is still there with its overrides, or no file has its identity, or a failure of its
object was recorded since. -/
def NothingLost (env : Env) (tree : FlakyTree) (w w' : World) : Prop :=
  ∀ r ∈ w.conn.working.files.rows, ∀ dims, w.conn.working.namesOf r.key = some dims →
    (∃ r' ∈ w'.conn.working.files.rows, r'.id = r.id ∧ r'.key = r.key ∧
      ∀ k, w'.conn.working.tagsOverride.lookup (r.id, k) = w.conn.working.tagsOverride.lookup (r.id, k)) ∨
      (∀ path ∈ tree.paths, tree.resolves path ≠ some dims) ∨
      ∃ key, tree.Names dims key ∧ RecordedSince env w.clock w'.conn.working key

/-! ### A failure recorded under a path -/

section Properties

variable {env : Env} {source : Source} {c : ℕ}

/-- A failure is recorded under a key that no job has. -/
def RecordedApart (env : Env) (c : ℕ) (q : PyStr) (jobs : List Job) (db : Db) : Prop :=
  (∀ job ∈ jobs, job.effKey ≠ q) ∧ RecordedSince env c db q

theorem survives_recordedApart (q : PyStr) : Survives env source c (RecordedApart env c q) where
  perm hp h := ⟨fun job hjob => h.1 job (hp.mem_iff.mpr hjob), h.2⟩
  raised h _ _ _ hmost := by
    obtain ⟨t, text, ht, hlookup⟩ := h.2
    have hne := h.1 _ List.mem_cons_self
    exact ⟨fun _ hjob => absurd hjob List.not_mem_nil, t, text, ht, (hmost.failures q hne.symm).trans hlookup⟩
  applied {job rest db db' a b t result effect} h _ _ heffect _ hrecords _ := by
    obtain ⟨t', text, ht', hlookup⟩ := h.2
    have hne := h.1 _ List.mem_cons_self
    refine ⟨fun job hjob => h.1 job (List.mem_cons_of_mem _ hjob), t', text, ht', (hrecords.others q ?_).trans hlookup⟩
    intro hkey
    cases jobEffect_of_extract heffect with
    | nothing => cases hkey
    | quarantine => exact hne (Option.some.inj hkey)
    | write => exact hne (Option.some.inj hkey)

/-! ### A row kept, or its failure recorded -/

/-- What a job may come to, read at `c` or later. -/
def MayCome (source : Source) (c : ℕ) (job : Job) (effect : Effect) : Prop :=
  ∃ a b result, c ≤ a ∧ c ≤ b ∧ effectOf (job.extract source a b) = .ok (result, effect)

/-- The job's object may fail. -/
def MayFail (source : Source) (c : ℕ) (job : Job) : Prop := ∃ d k text, MayCome source c job (.quarantine d k text)

/-- The job's object may be written. -/
def MayWrite (source : Source) (c : ℕ) (job : Job) : Prop := ∃ written, MayCome source c job (.write written)

/-- Jobs of one identity that do not take each other's record away: what goes wrong with one can be recorded, and if one
may fail then the others may not be written. -/
structure Orderly (source : Source) (c : ℕ) (jobs : List Job) : Prop where
  recordable : ∀ job ∈ jobs, ∀ a b e, c ≤ a → c ≤ b → effectOf (job.extract source a b) ≠ .error e
  alike : jobs.Pairwise fun i j => ¬(MayFail source c i ∧ MayWrite source c j) ∧ ¬(MayFail source c j ∧ MayWrite source c i)

theorem Orderly.perm {jobs jobs' : List Job} (h : Orderly source c jobs) (hp : jobs.Perm jobs') : Orderly source c jobs' where
  recordable job hjob := h.recordable job (hp.mem_iff.mpr hjob)
  alike := (hp.pairwise_iff fun {_ _} hij => ⟨hij.2, hij.1⟩).mp h.alike

theorem Orderly.tail {job : Job} {jobs : List Job} (h : Orderly source c (job :: jobs)) : Orderly source c jobs where
  recordable job hjob := h.recordable job (List.mem_cons_of_mem _ hjob)
  alike := (List.pairwise_cons.mp h.alike).2

/-- The row of an identity is there, with its overrides. -/
def RowKept (d : Dims) (r : Row FileKey FileCols) (overrides : PyStr → Option (Option PyStr × ℤ)) (db : Db) : Prop :=
  ∃ r', rowOf db d = some r' ∧ r'.id = r.id ∧ r'.key = r.key ∧ ∀ k, (view db).overrides d k = overrides k

theorem RowKept.sameHolding {d : Dims} {r : Row FileKey FileCols} {o : PyStr → Option (Option PyStr × ℤ)} {db db' : Db}
    (h : RowKept d r o db) (hu : SameHolding d db db') : RowKept d r o db' := by
  obtain ⟨r', hr', hid, hkey, ho⟩ := h
  exact ⟨r', hu.row.trans hr', hid, hkey, fun k => (hu.overrides k).trans (ho k)⟩

/-- The failure of an object of an identity is recorded under its key. -/
def KeyRecorded (env : Env) (c : ℕ) (d : Dims) (db : Db) : Prop :=
  ∃ k, parseHiveKey k = some d ∧ RecordedSince env c db k

/-- The row of an identity is kept, or its failure recorded and no job to come takes the record away. -/
structure KeptOrRecorded (env : Env) (source : Source) (c : ℕ) (d : Dims) (r : Row FileKey FileCols)
    (o : PyStr → Option (Option PyStr × ℤ)) (jobs : List Job) (db : Db) : Prop where
  trusted : ∀ job ∈ jobs, parseHiveKey job.effKey = some job.dims
  orderly : Orderly source c (jobs.filter fun job => job.dims = d)
  safe : RowKept d r o db ∨ KeyRecorded env c d db ∧ ∀ job ∈ jobs, job.dims = d → ¬MayWrite source c job

theorem filter_dims_of_ne {job : Job} {d : Dims} (h : job.dims ≠ d) (rest : List Job) :
    ((job :: rest).filter fun job => job.dims = d) = rest.filter fun job => job.dims = d := by
  rw [List.filter_cons_of_neg (by simpa using h)]

theorem filter_dims_of_eq {job : Job} {d : Dims} (h : job.dims = d) (rest : List Job) :
    ((job :: rest).filter fun job => job.dims = d) = job :: rest.filter fun job => job.dims = d := by
  rw [List.filter_cons_of_pos (by simpa using h)]

/-- A record of an identity is under another key than the failures of other identities. -/
theorem KeyRecorded.beside {d dims : Dims} {effKey : PyStr} {db db' : Db} (h : KeyRecorded env c d db)
    (hparse : parseHiveKey effKey = some dims) (hne : dims ≠ d)
    (hfailures : ∀ k, k ≠ effKey → db'.catalogFailures.lookup k = db.catalogFailures.lookup k) :
    KeyRecorded env c d db' := by
  obtain ⟨k, hk, t, text, ht, hlookup⟩ := h
  refine ⟨k, hk, t, text, ht, (hfailures k ?_).trans hlookup⟩
  rintro rfl
  rw [hk] at hparse
  exact hne (Option.some.inj hparse).symm

/-- An effect on the identity that writes its row again. -/
theorem RowKept.write {d : Dims} {r : Row FileKey FileCols} {o : PyStr → Option (Option PyStr × ℤ)} {db db' : Db}
    {written : Written} (h : RowKept d r o db) (hstep : EffectStep env (.write written) db db') (hd : written.dims = d) :
    RowKept d r o db' := by
  obtain ⟨r', hr', hid, hkey, ho⟩ := h
  have hview := congrFun (congrArg Logical.files hstep.view) d
  rw [← hd] at hview
  simp only [view, Effect.apply, Function.update_self] at hview
  obtain ⟨r₂, hr₂, _⟩ := Option.map_eq_some_iff.mp hview
  rw [hd] at hr₂
  refine ⟨r₂, hr₂, (hstep.keepsId d r' r₂ hr' hr₂).trans hid, ?_, fun k => by rw [hstep.view, ← ho k]; rfl⟩
  have hsame := fileKey_mono hstep.grow.names (rowOf_eq_some_iff.mp hr').2
  rw [(rowOf_eq_some_iff.mp hr₂).2] at hsame
  exact (Option.some.inj hsame).trans hkey

/-- A job of another identity. -/
theorem KeptOrRecorded.other {d : Dims} {r : Row FileKey FileCols} {o : PyStr → Option (Option PyStr × ℤ)} {job : Job}
    {rest : List Job} {db db' : Db}
    (h : KeptOrRecorded env source c d r o (job :: rest) db) (hd : job.dims ≠ d) (hrow : SameHolding d db db')
    (hfailures : ∀ k, k ≠ job.effKey → db'.catalogFailures.lookup k = db.catalogFailures.lookup k) :
    KeptOrRecorded env source c d r o rest db' where
  trusted job hjob := h.trusted job (List.mem_cons_of_mem _ hjob)
  orderly := by
    have horderly := h.orderly
    rw [filter_dims_of_ne hd] at horderly
    exact horderly
  safe := by
    cases h.safe with
    | inl hkept => exact Or.inl (hkept.sameHolding hrow)
    | inr hrecorded =>
        exact Or.inr ⟨hrecorded.1.beside (h.trusted job List.mem_cons_self) hd hfailures,
          fun job hjob => hrecorded.2 job (List.mem_cons_of_mem _ hjob)⟩

/-- A job of the identity itself. -/
theorem KeptOrRecorded.own {d : Dims} {r : Row FileKey FileCols} {o : PyStr → Option (Option PyStr × ℤ)} {job : Job}
    {rest : List Job} {db db' : Db} {a b t : ℕ} {result : CatalogResult} {effect : Effect}
    (h : KeptOrRecorded env source c d r o (job :: rest) db) (hd : job.dims = d)
    (ha : c ≤ a) (hb : c ≤ b) (heffect : effectOf (job.extract source a b) = .ok (result, effect))
    (hstep : EffectStep env effect db db') (hrecords : Records env effect t db db')
    (hmoment : ∀ d k text, effect = .quarantine d k text → c ≤ t) : KeptOrRecorded env source c d r o rest db' where
  trusted job hjob := h.trusted job (List.mem_cons_of_mem _ hjob)
  orderly := by
    have horderly := h.orderly
    rw [filter_dims_of_eq hd] at horderly
    exact horderly.tail
  safe := by
    have horderly := h.orderly
    rw [filter_dims_of_eq hd] at horderly
    cases jobEffect_of_extract heffect with
    | nothing =>
        have hrow := sameHolding_of_step hstep (d := d) (by simp [Effect.dims])
        have hfailures : ∀ k, db'.catalogFailures.lookup k = db.catalogFailures.lookup k := fun k =>
          hrecords.others k (by simp [Effect.failureKey])
        cases h.safe with
        | inl hkept => exact Or.inl (hkept.sameHolding hrow)
        | inr hrecorded =>
            obtain ⟨⟨k, hk, t', text, ht', hlookup⟩, hnone⟩ := hrecorded
            exact Or.inr ⟨⟨k, hk, t', text, ht', (hfailures k).trans hlookup⟩,
              fun job hjob => hnone job (List.mem_cons_of_mem _ hjob)⟩
    | quarantine text =>
        refine Or.inr ⟨⟨job.effKey, ?_, t, text, hmoment _ _ _ rfl, hrecords.own _ _ _ rfl⟩, ?_⟩
        · rw [h.trusted job List.mem_cons_self, hd]
        · -- This job may fail, so no other of the identity may be written.
          intro job' hjob' hd' hwrite
          have hmember : job' ∈ rest.filter fun job => job.dims = d :=
            List.mem_filter.mpr ⟨hjob', by simpa using hd'⟩
          exact ((List.pairwise_cons.mp horderly.alike).1 job' hmember).1
            ⟨⟨_, _, _, a, b, result, ha, hb, heffect⟩, hwrite⟩
    | write summary =>
        cases h.safe with
        | inl hkept => exact Or.inl (hkept.write hstep hd)
        | inr hrecorded =>
            exact absurd ⟨_, a, b, result, ha, hb, heffect⟩ (hrecorded.2 job List.mem_cons_self hd)

theorem survives_keptOrRecorded (d : Dims) (r : Row FileKey FileCols) (o : PyStr → Option (Option PyStr × ℤ)) :
    Survives env source c (KeptOrRecorded env source c d r o) where
  perm hp h := by
    refine ⟨fun job hjob => h.trusted job (hp.mem_iff.mpr hjob), h.orderly.perm (hp.filter _), ?_⟩
    cases h.safe with
    | inl hkept => exact Or.inl hkept
    | inr hrecorded => exact Or.inr ⟨hrecorded.1, fun job hjob => hrecorded.2 job (hp.mem_iff.mpr hjob)⟩
  raised {job rest db db' a b e} h ha hb heffect hmost := by
    have hd : job.dims ≠ d := by
      intro hd
      have hmember : job ∈ (job :: rest).filter fun job => job.dims = d := by
        rw [filter_dims_of_eq hd]
        exact List.mem_cons_self
      exact h.orderly.recordable job hmember a b e ha hb heffect
    obtain ⟨_, _, hsafe⟩ := h.other hd (hmost.rows d (Ne.symm hd)) hmost.failures
    refine ⟨fun _ hjob => absurd hjob List.not_mem_nil, ⟨fun _ hjob => absurd hjob List.not_mem_nil, List.Pairwise.nil⟩, ?_⟩
    cases hsafe with
    | inl hkept => exact Or.inl hkept
    | inr hrecorded => exact Or.inr ⟨hrecorded.1, fun _ hjob => absurd hjob List.not_mem_nil⟩
  applied {job rest db db' a b t result effect} h ha hb heffect hstep hrecords hmoment := by
    by_cases hd : job.dims = d
    · exact h.own hd ha hb heffect hstep hrecords hmoment
    · have heffects := jobEffect_of_extract heffect
      refine h.other hd (sameHolding_of_step hstep ?_) fun k hk => hrecords.others k ?_
      · intro hdims
        cases heffects with
        | nothing => cases hdims
        | quarantine => exact hd (Option.some.inj hdims)
        | write => exact hd (Option.some.inj hdims)
      · intro hkey
        cases heffects with
        | nothing => cases hkey
        | quarantine => exact hk (Option.some.inj hkey).symm
        | write => exact hk (Option.some.inj hkey).symm

end Properties

/-! ### Nothing is lost -/

section Losses

variable {env : Env} {tree : FlakyTree} {w : World}

theorem mem_sightings {source : Source} {listings : List Listing} {t : ℕ} {s : Sighting}
    (h : s ∈ sightings source t listings) :
    s.listing ∈ listings ∧ ∃ t', s.seen = trustedDims (source.intendedKey t' s.listing.key) s.listing.key := by
  induction listings generalizing t with
  | nil => exact absurd h List.not_mem_nil
  | cons lst rest ih =>
      rw [sightings] at h
      rcases List.mem_cons.mp h with rfl | hrest
      · exact ⟨List.mem_cons_self, t, rfl⟩
      · obtain ⟨hlst, hseen⟩ := ih hrest
        exact ⟨List.mem_cons_of_mem _ hlst, hseen⟩

/-- A key that a job has is trusted without an override. -/
theorem trustedDims_of_effKey {intended : Option PyStr} {key effKey : PyStr} {dims : Dims}
    (h : trustedDims intended key = some (dims, effKey)) : trustedDims none effKey = some (dims, effKey) := by
  obtain ⟨hparse, hround⟩ := trustedDims_eq_some h
  rw [trustedDims]
  simp only [Option.getD_none, hparse, ne_eq, hround, not_true_eq_false, if_false]

theorem mem_jobs_of_sightings {source : Source} {listings : List Listing} {t : ℕ} {stored : Dims → Option PyStr} {job : Job}
    (h : job ∈ (sightings source t listings).filterMap (Sighting.job stored)) :
    ∃ intended, trustedDims intended job.key = some (job.dims, job.effKey) := by
  obtain ⟨s, hs, hjob⟩ := List.mem_filterMap.mp h
  obtain ⟨_, t', hseen⟩ := mem_sightings hs
  rw [Sighting.job] at hjob
  split at hjob
  · cases hjob
  · rename_i dims effKey hdims
    split at hjob
    · cases hjob
    · cases hjob
      exact ⟨_, hseen.symm.trans hdims⟩

namespace FlakyTree

theorem listAll_eq (tree : FlakyTree) (t : ℕ) : (localSource tree.fs).listAll t = .ok (tree.listed t) := rfl

theorem key_mem_of_listed {t : ℕ} {lst : Listing} (h : lst ∈ tree.listed t) : lst.key ∈ tree.paths := by
  obtain ⟨path, hpath, hlst⟩ := List.mem_filterMap.mp h
  obtain ⟨_, _, rfl⟩ := Option.map_eq_some_iff.mp hlst
  exact (List.mem_filter.mp hpath).1

theorem listed_nodup (tree : FlakyTree) (t : ℕ) : ((tree.listed t).map Listing.key).Nodup := by
  have hsub : ∀ paths : List PyStr, ((paths.filterMap fun path =>
      (tree.fs.fingerprint t path).map fun st => (⟨path, st⟩ : Listing)).map Listing.key).Sublist paths := by
    intro paths
    induction paths with
    | nil => exact List.Sublist.refl _
    | cons path paths ih =>
        rw [List.filterMap_cons]
        cases tree.fs.fingerprint t path with
        | none => exact ih.cons path
        | some stat => exact ih.cons_cons path
  exact (tree.distinct.filter isListedPath).sublist (hsub _)

/-- A file that resolves but was taken for unparseable has no identity of its own path. -/
theorem trustedDims_none_of_unseen {t : ℕ} {path : PyStr} {d : Dims} (hresolves : tree.resolves path = some d)
    (hseen : trustedDims ((localSource tree.fs).intendedKey t path) path = none) : trustedDims none path = none := by
  cases hfails : tree.keyFails t path with
  | some e =>
      have hkey : (localSource tree.fs).intendedKey t path = none := by simp only [localSource, fs, hfails]
      rwa [hkey] at hseen
  | none =>
      have hkey : (localSource tree.fs).intendedKey t path = tree.s3Key path := by simp only [localSource, fs, hfails]
      rw [hkey] at hseen
      rw [resolves, hseen] at hresolves
      cases hresolves

/-- What the classification of a reconcile from `w` sees of the tree. -/
def sightingsFrom (tree : FlakyTree) (w : World) : List Sighting :=
  sightings (localSource tree.fs) (w.clock + 1) (tree.listed w.clock)

/-- The jobs of one identity. -/
def jobsFrom (tree : FlakyTree) (w : World) (d : Dims) : List Job :=
  ((tree.sightingsFrom w).filterMap (Sighting.job (storedEtag w))).filter fun job => job.dims = d

/-- **The scan recognizes an identity**: a file of it is listed and taken for unparseable, so that its failure is recorded;
or some listed file is taken for it, and the files taken for it are orderly. -/
def Recognized (tree : FlakyTree) (w : World) (d : Dims) : Prop :=
  (∃ s ∈ tree.sightingsFrom w, s.seen = none ∧ tree.resolves s.listing.key = some d) ∨
    (∃ s ∈ tree.sightingsFrom w, s.seen.map Prod.fst = some d) ∧
      Orderly (localSource tree.fs) w.clock (tree.jobsFrom w d)

end FlakyTree

open FlakyTree

theorem recordedSince_mono {t t' : ℕ} {db : Db} {key : PyStr} (h : RecordedSince env t' db key) (ht : t ≤ t') :
    RecordedSince env t db key := by
  obtain ⟨t₁, text, ht₁, hlookup⟩ := h
  exact ⟨t₁, text, le_trans ht ht₁, hlookup⟩

/-- **A listed file that was taken for unparseable**: its failure stays recorded, or nothing was written. -/
theorem recorded_of_unseen (hinj : FingerprintInjective env) {db : Db} (hinv : CatalogInv env db) (tree : FlakyTree)
    (workers : Workers) (committed : Db) (c : ℕ) {s : Sighting} {d : Dims}
    (hs : s ∈ tree.sightingsFrom (viewing committed db c)) (hseen : s.seen = none)
    (hresolves : tree.resolves s.listing.key = some d) :
    let db' := (fullReconcile env (localSource tree.fs) workers (viewing committed db c)).2.conn.working
    (∃ f, db' = withFailures db f) ∨ RecordedSince env c db' s.listing.key := by
  obtain ⟨_, t, hkey⟩ := mem_sightings hs
  have hpath : trustedDims none s.listing.key = none := trustedDims_none_of_unseen hresolves (hkey.symm.trans hseen)
  have hsurvives : Survives env (localSource tree.fs) c (RecordedApart env c s.listing.key) :=
    survives_recordedApart s.listing.key
  have hended := fullReconcile_ended hinj hinv hsurvives workers (listAll_eq tree c) (listed_nodup tree c)
    (fun scan db₁ hscanned => by
      refine ⟨fun job hjob hq => ?_, recordedSince_mono (hscanned.failures s hs hseen) (Nat.le_succ c)⟩
      rw [hscanned.jobs] at hjob
      obtain ⟨intended, htrusted⟩ := mem_jobs_of_sightings hjob
      have hself := trustedDims_of_effKey htrusted
      rw [hq, hpath] at hself
      cases hself) committed
  cases hended with
  | unclassified f h => exact Or.inl ⟨f, h⟩
  | raised h => exact Or.inr h.2
  | swept scan db₁ db₂ _ hkept hswept =>
      obtain ⟨t', text, ht', hlookup⟩ := hkept.2
      exact Or.inr ⟨t', text, ht', by rw [hswept.failures]; exact hlookup⟩

/-- **An identity that some listed file is taken for**: its row is kept, or its failure is recorded. -/
theorem kept_of_seen (hinj : FingerprintInjective env) {db : Db} (hinv : CatalogInv env db) (tree : FlakyTree)
    (workers : Workers) (committed : Db) (c : ℕ) {s : Sighting} {d : Dims} {r : Row FileKey FileCols}
    (hr : rowOf db d = some r) (hs : s ∈ tree.sightingsFrom (viewing committed db c)) (hseen : s.seen.map Prod.fst = some d)
    (horderly : Orderly (localSource tree.fs) c (tree.jobsFrom (viewing committed db c) d)) :
    let db' := (fullReconcile env (localSource tree.fs) workers (viewing committed db c)).2.conn.working
    RowKept d r ((view db).overrides d) db' ∨ KeyRecorded env c d db' := by
  obtain ⟨⟨dims, effKey⟩, hsome, hd⟩ := Option.map_eq_some_iff.mp hseen
  cases hd
  have hsurvives : Survives env (localSource tree.fs) c
      (KeptOrRecorded env (localSource tree.fs) c dims r ((view db).overrides dims)) :=
    survives_keptOrRecorded dims r ((view db).overrides dims)
  have hended := fullReconcile_ended hinj hinv hsurvives workers (listAll_eq tree c) (listed_nodup tree c)
    (fun scan db₁ hscanned => by
      obtain ⟨f, rfl⟩ := hscanned.only
      refine ⟨fun job hjob => ?_, ?_, Or.inl ⟨r, hr, rfl, rfl, fun _ => rfl⟩⟩
      · rw [hscanned.jobs] at hjob
        obtain ⟨intended, htrusted⟩ := mem_jobs_of_sightings hjob
        exact (trustedDims_eq_some htrusted).1
      · rw [hscanned.jobs]
        exact horderly) committed
  cases hended with
  | unclassified f h =>
      left
      rw [h]
      exact ⟨r, hr, rfl, rfl, fun _ => rfl⟩
  | raised h => exact h.safe.imp_right And.left
  | swept scan db₁ db₂ hscanned hkept hswept =>
      cases hkept.safe with
      | inr hrecorded =>
          obtain ⟨k, hk, t, text, ht, hlookup⟩ := hrecorded.1
          exact Or.inr ⟨k, hk, t, text, ht, by rw [hswept.failures]; exact hlookup⟩
      | inl hrow =>
          left
          obtain ⟨r', hr', hid, hkey, ho⟩ := hrow
          obtain ⟨hmem, hfile⟩ := rowOf_eq_some_iff.mp hr'
          -- The sweep finds the identity among the listed ones.
          have hpresent : present (Caches.of db₂) scan.dimsByKey (tree.listed c) r'.key = true := by
            rw [present, List.any_eq_true]
            refine ⟨s.listing, (mem_sightings hs).1, decide_eq_true ?_⟩
            rw [hscanned.dims s hs dims effKey hsome]
            exact hfile
          have hleft : rowOf _ dims = some r' := rowOf_eq_some_iff.mpr
            ⟨by rw [hswept.rows]; exact List.mem_filter.mpr ⟨hmem, hpresent⟩, (hswept.keys dims).trans hfile⟩
          refine ⟨r', hleft, hid, hkey, fun k => ?_⟩
          rw [← ho k]
          show (rowOf _ dims).bind _ = (rowOf db₂ dims).bind _
          rw [hleft, hr']
          exact hswept.overrides r' (rowOf_eq_some_iff.mp hleft).1 k

/-- **Nothing is lost** where the scan recognizes every identity that has a file, from any reached state with coherent
caches, every file under its own names. -/
theorem nothingLost_of_recognized (hinj : FingerprintInjective env) (tree : FlakyTree) (workers : Workers)
    (hreached : Reached env w) (hcoherent : CachesCoherent w)
    (hnamed : ∀ r ∈ w.conn.working.files.rows, fileKey w.conn.working r.val.origin.dims = some r.key)
    (hrecognized : ∀ r ∈ w.conn.working.files.rows, (∃ path ∈ tree.paths, tree.resolves path = some r.val.origin.dims) →
      tree.Recognized w r.val.origin.dims) :
    NothingLost env tree w (fullReconcile env (localSource tree.fs) workers w).2 := by
  intro r hr dims hnames
  have hworld := hreached.worldInv hinj
  have hown := namesOf_fileKey (hnamed r hr)
  rw [hnames] at hown
  cases hown
  by_cases hfile : ∃ path ∈ tree.paths, tree.resolves path = some r.val.origin.dims
  case neg =>
    exact Or.inr (Or.inl fun path hpath hresolves => hfile ⟨path, hpath, hresolves⟩)
  have hrow : rowOf w.conn.working r.val.origin.dims = some r := rowOf_eq_some_iff.mpr ⟨hr, hnamed r hr⟩
  have hviewing := viewing_of_coherent hworld hcoherent
  have hfound := hrecognized r hr hfile
  rw [hviewing] at hfound
  cases hfound with
  | inl hunseen =>
      obtain ⟨s, hs, hseen, hresolves⟩ := hunseen
      have hended := recorded_of_unseen hinj hworld.working tree workers w.conn.committed w.clock hs hseen hresolves
      rw [← hviewing] at hended
      cases hended with
      | inl hsame =>
          obtain ⟨f, hf⟩ := hsame
          rw [hf]
          exact Or.inl ⟨r, hr, rfl, rfl, fun _ => rfl⟩
      | inr hrecorded =>
          exact Or.inr (Or.inr ⟨_, Or.inr ⟨key_mem_of_listed (mem_sightings hs).1, hresolves⟩, hrecorded⟩)
  | inr hmet =>
      obtain ⟨⟨s, hs, hseen⟩, horderly⟩ := hmet
      have hended := kept_of_seen hinj hworld.working tree workers w.conn.committed w.clock hrow hs hseen horderly
      rw [← hviewing] at hended
      cases hended with
      | inl hkept =>
          obtain ⟨r', hr', hid, hkey, ho⟩ := hkept
          refine Or.inl ⟨r', (rowOf_eq_some_iff.mp hr').1, hid, hkey, fun k => ?_⟩
          have hsame := ho k
          simp only [view, hr', hrow, Option.bind_some] at hsame
          rw [← hid, hsame, hid]
      | inr hrecorded =>
          obtain ⟨k, hk, hsince⟩ := hrecorded
          exact Or.inr (Or.inr ⟨k, Or.inl hk, hsince⟩)

end Losses

/-! ### One file -/

/-- A tree with one recording that is fine. -/
def steadyTree : FlakyTree where
  paths := [earlierKey]
  distinct := List.nodup_singleton earlierKey
  stat _ := (100, 5)
  s3Key _ := none
  summary _ := .ok (some blankSummary)
  statFails _ _ := false
  keyFails _ _ := none
  openFails _ _ := none

/-- The recording is cataloged. -/
def staged : World := (Call.catalogObject earlierKey (localSource steadyTree.fs) none).run oneTopicEnv (opened Db.empty 0)

theorem reached_staged : Reached oneTopicEnv staged := (Reached.empty 0).call _

/-- The recording is overwritten, and cannot be opened. -/
def brokenTree : FlakyTree := { steadyTree with
  stat _ := (101, 6)
  openFails _ _ := some (.other (py "OSError") (py "denied")) }

/-- The recording cannot be statted at the moment of the listing. -/
def unlistedTree : FlakyTree := { steadyTree with statFails t _ := t = staged.clock }

/-- The overwritten recording as the scan meets it. -/
def brokenJob : Job := ⟨earlierKey, ⟨101, localEtag 101 6, 6⟩, earlierDims, earlierKey⟩

/-- What becomes of the recording: cataloged, then overwritten, or not listed. -/
theorem ends_staged :
    (catalogObject oneTopicEnv earlierKey (localSource steadyTree.fs) none
      (viewing Db.empty Db.empty 0)).1.toOption.isSome = true ∧
    (∀ r ∈ staged.conn.working.files.rows, fileKey staged.conn.working r.val.origin.dims = some r.key ∧
      r.val.origin.dims = earlierDims) ∧
    staged.conn.working.files.rows.map (fun r => staged.conn.working.namesOf r.key) = [some earlierDims] ∧
    (brokenTree.sightingsFrom staged).map (fun s => s.seen.map Prod.fst) = [some earlierDims] ∧
    brokenTree.jobsFrom staged earlierDims = [brokenJob] ∧
    (effectOf (brokenJob.extract (localSource brokenTree.fs) 0 0)).toOption.isSome = true ∧
    unlistedTree.resolves earlierKey = some earlierDims ∧
    (fullReconcile oneTopicEnv (localSource unlistedTree.fs) .one staged).2.conn.working.files.rows = [] ∧
    (fullReconcile oneTopicEnv (localSource unlistedTree.fs) .one staged).2.conn.working.catalogFailures.keys = [] := by
  refine ⟨?_, ?_, ?_, ?_, ?_, ?_, ?_, ?_, ?_⟩
  all_goals decide +kernel

theorem coherent_staged : CachesCoherent staged := by
  have hrefines := refines_catalogObject fingerprintInjective_oneTopicEnv (catalogInv_empty oneTopicEnv) earlierKey
    (localSource steadyTree.fs) none 0
  show CachesCoherent (catalogObject oneTopicEnv earlierKey (localSource steadyTree.fs) none (opened Db.empty 0)).2
  rw [opened_eq]
  exact coherent_of_refines hrefines ends_staged.1

theorem recognized_brokenTree : brokenTree.Recognized staged earlierDims := by
  obtain ⟨_, _, _, hseen, hjobs, heffect, _⟩ := ends_staged
  refine Or.inr ⟨List.mem_map.mp (hseen ▸ List.mem_singleton_self _), ?_⟩
  rw [hjobs]
  refine ⟨fun job hjob a b e _ _ herror => ?_, List.pairwise_singleton _ _⟩
  rw [List.mem_singleton.mp hjob] at herror
  -- The tree answers alike at every moment.
  have hsome : (effectOf (brokenJob.extract (localSource brokenTree.fs) a b)).toOption.isSome = true := heffect
  rw [herror] at hsome
  cases hsome

theorem nothingLost_of_recognized_brokenTree :
    NothingLost oneTopicEnv brokenTree staged (fullReconcile oneTopicEnv (localSource brokenTree.fs) .one staged).2 := by
  have hnamed := ends_staged.2.1
  refine nothingLost_of_recognized fingerprintInjective_oneTopicEnv brokenTree .one reached_staged coherent_staged
    (fun r hr => (hnamed r hr).1) fun r hr _ => ?_
  rw [(hnamed r hr).2]
  exact recognized_brokenTree

/-- **A file that could not be statted while it was listed**: its row is gone and nothing is recorded. -/
theorem unlisted_lost : Reached oneTopicEnv staged ∧ CachesCoherent staged ∧
    ¬NothingLost oneTopicEnv unlistedTree staged
      (fullReconcile oneTopicEnv (localSource unlistedTree.fs) .one staged).2 := by
  refine ⟨reached_staged, coherent_staged, fun hall => ?_⟩
  obtain ⟨_, _, hcataloged, _, _, _, hresolves, hrows, hfailures⟩ := ends_staged
  obtain ⟨r, hr, hnames⟩ := List.mem_map.mp (hcataloged ▸ List.mem_singleton_self (some earlierDims))
  rcases hall r hr earlierDims hnames with ⟨r', hr', _⟩ | hnone | ⟨k, _, t, text, _, hlookup⟩
  · rw [hrows] at hr'
    exact absurd hr' List.not_mem_nil
  · exact hnone earlierKey (List.mem_singleton_self earlierKey) hresolves
  · have hmem := AList.lookup_isSome.mp (Option.isSome_iff_exists.mpr ⟨_, hlookup⟩)
    rw [AList.mem_keys, hfailures] at hmem
    exact absurd hmem List.not_mem_nil

end McapCatalog.Builder
