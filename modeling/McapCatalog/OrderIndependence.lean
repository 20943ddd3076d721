import McapCatalog.Recording
import McapCatalog.TopicSharing

/-!
# The order of the reads does not matter

Two reconciles of one unchanging source from one catalog, whatever the numbers of workers and the orders in which
the reads complete.

* `come_perm`, `tallied_perm` — the results of the jobs and their counts, in any order;
* `SameCatalog` — two catalogs that say the same, up to the numeric ids of rows that are new;
* `fullReconcile_order` — both reconciles raise, or both return the same tally and leave the same catalog;
* `fullReconcile_order_iff` — **the order does not matter exactly if everything can be recorded**.
-/

namespace McapCatalog.Builder

open McapCatalog.PyText McapCatalog.PyError McapCatalog.KeyParse McapCatalog.McapSummary
open McapCatalog.Storage McapCatalog.Tables McapCatalog.RowidTable McapCatalog.KeyedRows
open McapCatalog.Connection McapCatalog.CatalogDb McapCatalog.Reconcile McapCatalog.Worker McapCatalog.Runs

/-- What some extracts come to is determined one by one. -/
theorem come_perm {exs exs' : List Extract} {results results' : List (CatalogResult × Effect)}
    (h : Come exs results) (h' : Come exs' results') (hp : exs.Perm exs') : results.Perm results' := by
  have hmap : ∀ {exs results}, Come exs results → (exs.map effectOf).filterMap Except.toOption = results := by
    intro exs results h
    induction h with
    | nil => rfl
    | cons hone _ ih =>
        rw [List.map_cons, hone, List.filterMap_cons, ih]
        rfl
  have := (hp.map effectOf).filterMap Except.toOption
  rwa [hmap h, hmap h'] at this

theorem add_comm (tally : Tally) (a b : Status) : (tally.add a).add b = (tally.add b).add a := by
  cases a <;> cases b <;> rfl

/-- Counting does not depend on the order. -/
theorem tallied_perm {results results' : List (CatalogResult × Effect)} (hp : results.Perm results')
    (tally : Tally) : tallied tally results = tallied tally results' :=
  hp.foldl_eq' (fun a _ b _ tally => add_comm tally a.1.status b.1.status) tally

/-- Two catalogs that say the same.  Ids appear only in what they are used for: to tell which files share a topic
set, and which overrides belong to a file. -/
structure SameCatalog (db db' : Db) : Prop where
  complete : ∀ r ∈ db.files.rows, ∃ d, rowOf db d = some r
  complete' : ∀ r ∈ db'.files.rows, ∃ d, rowOf db' d = some r
  rows : ∀ d, Option.Rel (SameRow db db') (rowOf db d) (rowOf db' d)
  topicSets : ∀ d₁ d₂ r₁ r₂ s₁ s₂, rowOf db d₁ = some r₁ → rowOf db d₂ = some r₂ → rowOf db' d₁ = some s₁ →
    rowOf db' d₂ = some s₂ → (r₁.val.topicSetId = r₂.val.topicSetId ↔ s₁.val.topicSetId = s₂.val.topicSetId)
  overrides : ∀ d k, ((rowOf db d).bind fun r => db.tagsOverride.lookup (r.id, k)) =
    (rowOf db' d).bind fun r => db'.tagsOverride.lookup (r.id, k)
  failures : ∀ key, (db.catalogFailures.lookup key).map Prod.snd = (db'.catalogFailures.lookup key).map Prod.snd

/-- Well-formed databases with one logical catalog and no row without an identity say the same. -/
theorem sameCatalog_of_view {env : Env} {db db' : Db} (hinv : CatalogInv env db) (hinv' : CatalogInv env db')
    (h : view db = view db') (hc : ∀ r ∈ db.files.rows, ∃ d, rowOf db d = some r)
    (hc' : ∀ r ∈ db'.files.rows, ∃ d, rowOf db' d = some r) : SameCatalog db db' := by
  have hfiles : ∀ d, (rowOf db d).map (fun r => r.val.origin) = (rowOf db' d).map fun r => r.val.origin :=
    fun d => congrFun (congrArg Logical.files h) d
  have horigin : ∀ {d r s}, rowOf db d = some r → rowOf db' d = some s → r.val.origin = s.val.origin := by
    intro d r s hr hs
    have := hfiles d
    rw [hr, hs] at this
    exact Option.some.inj this
  refine ⟨hc, hc', ?_, ?_, ?_, ?_⟩
  · intro d
    rcases hr : rowOf db d with _ | r
    · have hnone := hfiles d
      rw [hr, Option.map_none] at hnone
      rw [Option.map_eq_none_iff.mp hnone.symm]
      exact Option.Rel.none
    · rcases hs : rowOf db' d with _ | s
      · have hsome := hfiles d
        rw [hr, hs] at hsome
        cases hsome
      · exact Option.Rel.some (sameRow_of_origin hinv hinv' (rowOf_eq_some_iff.mp hr).1
          (rowOf_eq_some_iff.mp hs).1 (horigin hr hs))
  · intro d₁ d₂ r₁ r₂ s₁ s₂ hr₁ hr₂ hs₁ hs₂
    rw [sameSet_iff hinv (rowOf_eq_some_iff.mp hr₁).1 (rowOf_eq_some_iff.mp hr₂).1,
      sameSet_iff hinv' (rowOf_eq_some_iff.mp hs₁).1 (rowOf_eq_some_iff.mp hs₂).1,
      horigin hr₁ hs₁, horigin hr₂ hs₂]
  · intro d k
    exact congrFun (congrFun (congrArg Logical.overrides h) d) k
  · intro key
    exact congrFun (congrArg Logical.failures h) key

/-- The ids that were given stay given. -/
structure KeepsIds (db db' : Db) : Prop where
  files : ∀ d r r', rowOf db d = some r → rowOf db' d = some r' → r'.id = r.id
  dims : DimsGrow db db'
  topics : TopicsGrow db db'

/-- The lookup tables of a path only grow. -/
theorem path_grows {env : Env} {w w' : World} (h : Path env w w') :
    DimsGrow w.conn.working w'.conn.working ∧ TopicsGrow w.conn.working w'.conn.working := by
  induction h with
  | refl => exact ⟨DimsGrow.refl _, TopicsGrow.refl _⟩
  | @tail b c _ hact ih =>
      have hone : DimsGrow b.conn.working c.conn.working ∧ TopicsGrow b.conn.working c.conn.working := by
        cases hact with
        | tick => exact ⟨DimsGrow.refl _, TopicsGrow.refl _⟩
        | dims ho =>
            obtain ⟨hg, c, s, r, x, rfl⟩ := ho
            exact ⟨hg, TopicsGrow.of_eq rfl rfl rfl rfl⟩
        | delete p => exact ⟨DimsGrow.of_eq rfl rfl rfl rfl, TopicsGrow.of_eq rfl rfl rfl rfl⟩
        | failures f b => exact ⟨DimsGrow.of_eq rfl rfl rfl rfl, TopicsGrow.of_eq rfl rfl rfl rfl⟩
        | commit => exact ⟨DimsGrow.refl _, TopicsGrow.refl _⟩
        | wrote hsync hids hw _ => exact ⟨DimsGrow.of_eq hw.customers hw.sites hw.robots hw.sources, hw.grow⟩
        | reload t hsync => exact ⟨DimsGrow.refl _, TopicsGrow.refl _⟩
      exact ⟨ih.1.trans hone.1, ih.2.trans hone.2⟩

/-- Two runs from `db` that raise for the same reason, or return one tally and leave one catalog. -/
inductive SameOutcome (source : Source) (listings : List Listing) (db : Db) :
    Except PyErr Tally × World → Except PyErr Tally × World → Prop where
  | raised {e e' : PyErr} {w w' : World} (h : Blocked source (view db) listings) :
    SameOutcome source listings db (.error e, w) (.error e', w')
  | returned {tally : Tally} {w w' : World} (same : SameCatalog w.conn.committed w'.conn.committed)
      (keeps : KeepsIds db w.conn.committed) (keeps' : KeepsIds db w'.conn.committed) :
    SameOutcome source listings db (.ok tally, w) (.ok tally, w')

/-- A reconcile that returned was not blocked. -/
theorem Reconciled.not_blocked {env : Env} {source : Source} {listings : List Listing} {order : List Job}
    {results : List (CatalogResult × Effect)} {db db' : Db}
    (h : Reconciled env source listings order results db db') : ¬Blocked source (Builder.view db) listings := by
  rintro (⟨lst, hlst, hbad⟩ | ⟨job, hjob, e, he⟩)
  · exact h.recordable lst hlst hbad
  · obtain ⟨r, _, hout⟩ := exists_right_of_mem h.come
      (List.mem_map_of_mem (f := extracted source) (h.jobs.mem_iff.mpr hjob))
    rw [he] at hout
    cases hout

/-- **The order of the reads does not matter.**  From a catalog that any run has reached, over a source that does
not change and whose parseable objects resolve to different identities, two reconciles whose reads complete in any
two orders both raise, because some name or text cannot be stored, or both return, with one tally and one catalog up
to the ids of new rows. -/
theorem fullReconcile_order {env : Env} (hinj : FingerprintInjective env) {w : World} (hw : Reached env w)
    {source : Source} (hs : source.Unchanging) {listings : List Listing}
    (hlist : source.listAll 0 = .ok listings) (hdistinct : (listedDims source listings).Nodup)
    (workers workers' : Workers) (t : ℕ) :
    SameOutcome source listings w.conn.committed
      (fullReconcile env source workers (opened w.conn.committed t))
      (fullReconcile env source workers' (opened w.conn.committed t)) := by
  have hworld := hw.worldInv hinj
  have hinv := hworld.committed
  rw [opened_eq]
  rcases fullReconcile_viewing hinj hs hinv hlist workers t with
    ⟨hblocked, e, v₁, hrun₁⟩ | ⟨order₁, results₁, db₁, t₁, hrun₁, hdone₁⟩ <;>
  rcases fullReconcile_viewing hinj hs hinv hlist workers' t with
    ⟨hblocked', e', v₂, hrun₂⟩ | ⟨order₂, results₂, db₂, t₂, hrun₂, hdone₂⟩
  · rw [hrun₁, hrun₂]
    exact .raised hblocked
  · exact absurd hblocked hdone₂.not_blocked
  · exact absurd hblocked' hdone₁.not_blocked
  · have hresults : results₁.Perm results₂ := come_perm hdone₁.come hdone₂.come
      ((hdone₁.jobs.trans hdone₂.jobs.symm).map _)
    have hview : view db₁ = view db₂ := by
      rw [hdone₁.view, hdone₂.view, effectsOf, effectsOf, List.foldl_append, List.foldl_append,
        Effect.foldl_apply_perm (hresults.map _) (apart_of_come hdistinct hdone₁.jobs hdone₁.come)]
    have hkeeps : ∀ {order results db' t' tally} {workers : Workers},
        fullReconcile env source workers (viewing w.conn.committed w.conn.committed t) =
          (.ok tally, viewing db' db' t') →
        Reconciled env source listings order results w.conn.committed db' → KeepsIds w.conn.committed db' := by
      intro order results db' t' tally workers hrun hdone
      have hstart := worldInv_opened hinv t
      rw [opened_eq] at hstart
      have hgrows := path_grows (builds_fullReconcile hinj source workers _ hstart).2
      rw [hrun] at hgrows
      exact ⟨fun d r r' hr hr' => hdone.keepsId hdistinct hr hr', hgrows.1, hgrows.2⟩
    have hk₁ := hkeeps hrun₁ hdone₁
    have hk₂ := hkeeps hrun₂ hdone₂
    rw [hrun₁, hrun₂, tallied_perm hresults]
    refine .returned (sameCatalog_of_view hdone₁.inv hdone₂.inv hview ?_ ?_) hk₁ hk₂
    · exact fun r hr => (hdone₁.complete hr).imp fun _ h => h.2
    · exact fun r hr => (hdone₂.complete hr).imp fun _ h => h.2

/-- Two runs from `db` return one tally, and leave one catalog up to the ids of new rows. -/
inductive SameResult (db : Db) : Except PyErr Tally × World → Except PyErr Tally × World → Prop where
  | returned {tally : Tally} {w w' : World} (same : SameCatalog w.conn.committed w'.conn.committed)
      (keeps : KeepsIds db w.conn.committed) (keeps' : KeepsIds db w'.conn.committed) :
    SameResult db (.ok tally, w) (.ok tally, w')

/-- **The order does not matter exactly if everything can be recorded.**  Where something cannot, no run returns. -/
theorem fullReconcile_order_iff {env : Env} (hinj : FingerprintInjective env) {w : World} (hw : Reached env w)
    {source : Source} (hs : source.Unchanging) {listings : List Listing}
    (hlist : source.listAll 0 = .ok listings) (hdistinct : (listedDims source listings).Nodup)
    (workers workers' : Workers) (t : ℕ) :
    SameResult w.conn.committed
        (fullReconcile env source workers (opened w.conn.committed t))
        (fullReconcile env source workers' (opened w.conn.committed t)) ↔
      ∀ lst ∈ listings, Recordable source (view w.conn.committed) lst := by
  have hinv := (hw.worldInv hinj).committed
  have horder := fullReconcile_order hinj hw hs hlist hdistinct workers workers' t
  constructor
  · intro hsame lst hlst
    by_contra hbad
    rw [opened_eq] at hsame
    rcases fullReconcile_viewing hinj hs hinv hlist workers t with
      ⟨_, e, w₁, hrun⟩ | ⟨_, _, _, _, _, hdone⟩
    · rw [hrun] at hsame
      cases hsame
    · exact hdone.not_blocked (blocked_iff.mpr ⟨lst, hlst, hbad⟩)
  · intro hall
    generalize fullReconcile env source workers (opened w.conn.committed t) = run at horder ⊢
    generalize fullReconcile env source workers' (opened w.conn.committed t) = run' at horder ⊢
    cases horder with
    | raised hblocked =>
        obtain ⟨lst, hlst, hbad⟩ := blocked_iff.mp hblocked
        exact absurd (hall lst hlst) hbad
    | returned same keeps keeps' => exact .returned same keeps keeps'

/-- A second recording of the example bucket's robot. -/
def secondKey : PyStr := sampleFolder ++ py "b.mcap"

/-- A recording without a summary section. -/
def brokenKey : PyStr := sampleFolder ++ py "c.mcap"

/-- A bucket with two readable recordings, a broken one and a stray object. -/
def mixedBucket : Bucket :=
  (((oneObjectBucket.insert secondKey ⟨py "bcd", 110, 6, fun _ => .ok (some twoChannelSummary)⟩).insert brokenKey
    ⟨py "cde", 120, 7, fun _ => .ok none⟩).insert (py "stray.mcap") ⟨py "def", 130, 8, fun _ => .ok none⟩)

/-- The example source. -/
def mixedSource : Source := s3Source (fun _ => mixedBucket) []

/-- A pool whose reads complete in reverse order. -/
def reversedPool (n : ℕ) : PoolRun n where
  completed := (List.finRange n).reverse.map fun i => ⟨i, 0, 0⟩
  complete := by
    rw [List.map_map]
    exact (List.map_id' _ ▸ List.reverse_perm _)

theorem unchanging_mixedSource : mixedSource.Unchanging :=
  ⟨fun _ _ => rfl, fun _ _ => rfl, fun _ _ => rfl, fun _ _ => rfl⟩

/-- The listing of the example source. -/
def mixedListings : List Listing :=
  [⟨py "stray.mcap", ⟨130, py "def", 8⟩⟩, ⟨brokenKey, ⟨120, py "cde", 7⟩⟩, ⟨secondKey, ⟨110, py "bcd", 6⟩⟩,
    ⟨sampleKey, ⟨100, py "abc", 5⟩⟩]

theorem listAll_mixedSource : mixedSource.listAll 0 = .ok mixedListings := by decide +kernel

theorem nodup_listedDims_mixed : (listedDims mixedSource mixedListings).Nodup := by decide +kernel

/-- An empty catalog. -/
def emptyWorld : World := opened Db.empty 0

/-- A reading does not raise, or the text of its error can be encoded. -/
def encodesError : Except PyErr FileSummary → Bool
  | .error e => encodable e.errorText
  | .ok _ => true

theorem bindable_mixedSource : Bindable mixedSource mixedListings := by
  refine ⟨by decide +kernel, fun lst hlst dims effKey hres => ?_, fun lst hlst e he => ?_⟩
  · have hall : ∀ lst ∈ mixedListings, ∀ p ∈ resolution mixedSource lst.key, encodable p.2 = true := by
      decide +kernel
    exact hall lst hlst (dims, effKey) hres
  · have hall : ∀ lst ∈ mixedListings, encodesError (mixedSource.readSummary 0 lst.key lst.stat.size) = true := by
      decide +kernel
    have hone := hall lst hlst
    rw [he] at hone
    exact hone

theorem fullReconcile_order_iff_mixed :
    SameResult emptyWorld.conn.committed
      (fullReconcile oneTopicEnv mixedSource .one (opened emptyWorld.conn.committed 0))
      (fullReconcile oneTopicEnv mixedSource (.pool reversedPool) (opened emptyWorld.conn.committed 0)) := by
  have hreached : Reached oneTopicEnv emptyWorld := Reached.empty 0
  exact (fullReconcile_order_iff fingerprintInjective_oneTopicEnv hreached unchanging_mixedSource listAll_mixedSource
    nodup_listedDims_mixed .one (.pool reversedPool) 0).mpr fun _ => recordable_of_bindable bindable_mixedSource _

/-- A recording whose file name is not text: a lone surrogate stands in it. -/
def unstorableKey : PyStr := sampleFolder ++ [0xDC80] ++ py ".mcap"

/-- A directory with a broken recording and one whose name cannot be stored. -/
def unstorableFs : LocalFs where
  stat _ path := if path = unstorableKey then some (110, 6) else if path = brokenKey then some (120, 7) else none
  openSummary _ path := .ok (if path = brokenKey then none else some twoChannelSummary)
  s3Key _ _ := .ok none
  files _ := [unstorableKey, brokenKey]
  stable _ _ := true

/-- Its listing: the broken recording comes last. -/
def unstorableListings : List Listing :=
  [⟨unstorableKey, ⟨110, localEtag 110 6, 6⟩⟩, ⟨brokenKey, ⟨120, localEtag 120 7, 7⟩⟩]

/-- Where a name cannot be stored both orders raise, and the catalog they leave depends on the order. -/
theorem fullReconcile_order_unstorable :
    (localSource unstorableFs).listAll 0 = .ok unstorableListings ∧
    (listedDims (localSource unstorableFs) unstorableListings).Nodup ∧
    (fullReconcile oneTopicEnv (localSource unstorableFs) .one emptyWorld).1.toOption = none ∧
    (view (fullReconcile oneTopicEnv (localSource unstorableFs) .one emptyWorld).2.conn.committed).failures brokenKey
      = none ∧
    (fullReconcile oneTopicEnv (localSource unstorableFs) (.pool reversedPool) emptyWorld).1.toOption = none ∧
    (view (fullReconcile oneTopicEnv (localSource unstorableFs) (.pool reversedPool) emptyWorld).2.conn.committed).failures
      brokenKey ≠ none := by
  decide +kernel

end McapCatalog.Builder
