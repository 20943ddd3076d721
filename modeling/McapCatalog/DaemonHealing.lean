import McapCatalog.DaemonRuns

/-!
# What a `--once` brings

Whatever the processes before it left at the served path, a `--once` that returns 0 over a source that has settled leaves the
catalog of the listed objects there, brought up to date in place or built anew.

* `UpToDate` — a whole catalog with the rows of the listed objects, and a recorded failure for an object without one;
* `upToDate_of_rescan` — a reconcile on a connection that works; `carried_upToDate` — the tags that are carried forward;
* `Brought.upToDate`, `healed_of_once` — **what is at the served path when a `--once` has returned 0.**
-/

namespace McapCatalog.Daemon

open McapCatalog.PyText McapCatalog.PyError McapCatalog.KeyParse McapCatalog.Storage McapCatalog.Tables
open McapCatalog.RowidTable McapCatalog.KeyedRows McapCatalog.Connection
open McapCatalog.CatalogDb McapCatalog.Builder McapCatalog.Reconcile McapCatalog.Worker McapCatalog.Publish
open McapCatalog.SurvivingState McapCatalog.SurvivingState.Comp
open Relation

/-- The catalog is that of the listed objects. -/
structure UpToDate (env : Env) (source : Source) (listings : List Listing) (db : Db) : Prop where
  whole : WholeCatalog env db
  healed : Healed source listings db.files.rows
  told : Told source listings db

section Catalogs

variable {env : Env} {source : Source} {listings : List Listing} {workers : Workers} {t₀ : ℕ} {w w' : World} {tally : Tally}
  {db : Db}

/-- **A reconcile that returns**, on a connection that works and after the source has settled. -/
theorem upToDate_of_rescan (hinj : FingerprintInjective env) (h : SoundAt env w) (hsettled : SettledFrom source t₀)
    (ht : t₀ ≤ w.clock) (hc : Consistent (atMoment source t₀) listings) (hquiet : w.Quiet)
    (hrun : fullReconcile env source workers w = (.ok tally, w'))
    (hbuilt : ∃ build, w'.conn.working.buildMetadata = some build ∧ 0 < build.lastBuildNs) :
    w'.conn.committed = w'.conn.working ∧ UpToDate env (atMoment source t₀) listings w'.conn.working := by
  have hsame : atMoment source w.clock = atMoment source t₀ := hsettled.atMoment_eq ht
  obtain ⟨tally', db', t', hrescan, hinv, hhealed, htold⟩ :=
    h.rescan hinj (hsettled.later ht) (by rw [hsame]; exact hc) workers
  rw [scripted_of_quiet hquiet, hrun] at hrescan
  rw [hsame] at hhealed htold
  cases hrescan
  exact ⟨rfl, ⟨hinv, hbuilt⟩, hhealed, htold⟩

/-- Tags that are carried forward are tags. -/
theorem carried_upToDate (h : UpToDate env source listings db) (rows : List OldOverride)
    (hwhole : WholeCatalog env (rows.foldl Publish.carried db)) :
    UpToDate env source listings (rows.foldl Publish.carried db) := by
  obtain ⟨overrides, hcarried⟩ := CarryForward.foldl_carried_only rows db
  refine ⟨hwhole, ?_, ?_⟩
  · rw [hcarried]
    exact h.healed
  · rw [hcarried]
    exact ⟨h.told.resolved, h.told.unresolved⟩

/-- What is renamed over the served path, when nothing failed in the temporary database. -/
theorem upToDate_of_buildTempDb (hinj : FingerprintInjective env) (hsettled : SettledFrom source t₀)
    (hc : Consistent (atMoment source t₀) listings) {floor : Option ℕ} {rows : List OldOverride} {checkpoint : TempCheckpoint}
    {row : CheckpointRow} {circumstances : Circumstances} (ht : t₀ ≤ circumstances.clock) (hfaults : circumstances.faults = [])
    (hrun : buildTempDb floor rows checkpoint (fullReconcile env source workers) (freshWorld circumstances) =
      (.ok (tally, row), w)) : UpToDate env (atMoment source t₀) listings w.conn.committed := by
  have hwhole := whole_of_buildTempDb hinj hrun
  obtain ⟨built, hbuilt, hcommitted⟩ := TagLifetimes.committed_of_buildTempDb hrun
  rw [buildUpTo_eq] at hbuilt
  obtain ⟨_, w₁, hseed, hreconcile⟩ := bind_eq_ok hbuilt
  obtain ⟨hsound, hclock, hquiet⟩ := seeding_of_ok hseed
  rw [hcommitted] at hwhole ⊢
  refine carried_upToDate (upToDate_of_rescan hinj hsound hsettled (ht.trans hclock) hc (hquiet hfaults) hreconcile ?_).2 rows hwhole
  obtain ⟨overrides, hcarried⟩ := CarryForward.foldl_carried_only rows built.conn.working
  have hdone := hwhole.built
  rwa [hcarried] at hdone

end Catalogs

section Once

variable {env : Env} {paths : Paths} {args : Args} {source : Source} {c : Course} {dir dir' : Dir} {t₀ : ℕ}
  {listings : List Listing}

/-- **What was brought is up to date.** -/
theorem Brought.upToDate (h : Brought env paths args source c dir dir') (hintact : Intact env dir)
    (hinj : FingerprintInjective env) (hsettled : SettledFrom source t₀) (hc : Consistent (atMoment source t₀) listings)
    (hclock : t₀ ≤ c.clock) (hpublish : t₀ ≤ c.publish.clock) (hfaults : c.faults = []) (hnone : c.publish.faults = []) :
    ∃ db, dir'.served.view = .content db ∧ UpToDate env (atMoment source t₀) listings db := by
  cases h with
  | published h =>
      rcases buildAndPublish_cases h.2 with ⟨halt, hout, _⟩ | ⟨result, dir₁, hswap, hmain, hframes⟩
      · cases hout
      · obtain ⟨row, w, generation, hbuilt, _, hmain₁, hframes₁⟩ := swap_ok hintact.notTorn hswap
        exact ⟨_, (hframes hframes₁).view (hmain.trans hmain₁),
          upToDate_of_buildTempDb hinj hsettled hc hpublish hnone hbuilt⟩
  | reconciled hplace hrun hfiles =>
      obtain ⟨hsound, hcounted⟩ := sound_of_whole (hintact.whole _ hplace.2)
      have hleft : HoldsAt (Counted _) (build env args source (loaded c _)).2 := counted_fullReconcile hcounted
      rw [hrun] at hleft
      have hbuilt := built_of_onward hleft.2 (built_of_onward hleft.1 (hintact.whole _ hplace.2).built)
      obtain ⟨hcommitted, hdone⟩ := upToDate_of_rescan hinj hsound hsettled hclock hc hfaults hrun hbuilt
      rw [← hcommitted] at hdone
      exact ⟨_, hfiles.2, hdone⟩

/-- **A `--once` heals the catalog.**  Builders ran one after the other over stores that changed, failing or killed anywhere.  A
`--once` follows after the source has settled, and no statement fails: when it returns 0, a reader sees a catalog with the rows
of the listed objects, each with the listed etag, and a recorded failure for each object that has none. -/
theorem healed_of_once (hinj : FingerprintInjective env) {start : Dir} (hstart : Intact env start)
    (hruns : ReflTransGen (ProcessStep env paths) start dir) (honce : args.once = true) {p : Process}
    (hrun : main env paths args source c (Process.start dir) = (.ok 0, p)) (hsettled : SettledFrom source t₀)
    (hc : Consistent (atMoment source t₀) listings) (hclock : t₀ ≤ c.clock) (hpublish : t₀ ≤ c.publish.clock)
    (hfaults : c.faults = []) (hnone : c.publish.faults = []) :
    ∃ db, p.dir.served.view = .content db ∧ UpToDate env (atMoment source t₀) listings db := by
  have hintact : Intact env dir := by
    clear hrun
    induction hruns with
    | refl => exact hstart
    | tail _ hstep ih => exact hstep.intact hinj ih
  exact ((footprint_of_main hintact.notTorn hrun).2 honce rfl).upToDate hintact hinj hsettled hc hclock hpublish hfaults hnone

end Once

/-- The listing of the bucket with one recording. -/
def sampleListings : List Listing := [⟨sampleKey, ⟨100, py "abc", 5⟩⟩]

theorem consistent_sampleSource : Consistent CarryForward.sampleSource sampleListings where
  unchanging := ⟨fun _ _ => rfl, fun _ _ => rfl, fun _ _ => rfl, fun _ _ => rfl⟩
  listed := by decide +kernel
  exist := by decide +kernel
  complete key stat hstat _ := by
    have hall : ∀ e ∈ oneObjectBucket.entries, (⟨e.1, e.2.stat⟩ : Listing) ∈ sampleListings := by decide +kernel
    obtain ⟨o, hlookup, rfl⟩ := Option.map_eq_some_iff.mp (Except.ok.inj hstat)
    exact hall ⟨key, o⟩ (AList.mem_lookup_iff.mp hlookup)
  distinct := by decide +kernel
  bindable := by
    have hkeys : ∀ lst ∈ sampleListings, ∀ p ∈ resolution CarryForward.sampleSource lst.key, encodable p.2 = true := by
      decide +kernel
    have htexts : ∀ lst ∈ sampleListings, encodesError (CarryForward.sampleSource.readSummary 0 lst.key lst.stat.size) = true := by
      decide +kernel
    refine ⟨by decide +kernel, fun lst hlst dims effKey hres => hkeys lst hlst (dims, effKey) hres, fun lst hlst e he => ?_⟩
    have hone := htexts lst hlst
    rwa [he] at hone

theorem settledFrom_sampleSource (t : ℕ) : SettledFrom CarryForward.sampleSource t :=
  ⟨fun _ _ => rfl, fun _ _ => rfl, fun _ _ => rfl, fun _ _ => rfl⟩

/-- A first build is killed before it is renamed over the served path. -/
def killedAtRename : Course := { courseOf none [] 0 [] with publish := circumstancesOf (.ok ⟨0, 0, 0⟩) (some .crash) }

def killedBuild : Except Halt ℕ × Process :=
  main oneTopicEnv catalogPaths (bucketArgs true) CarryForward.sampleSource killedAtRename (Process.start noDir)

/-- Another one follows. -/
def secondBuild : Except Halt ℕ × Process :=
  main oneTopicEnv catalogPaths (bucketArgs true) CarryForward.sampleSource (courseOf none [] 0 [])
    (Process.start killedBuild.2.dir)

theorem processStep_killedBuild : ProcessStep oneTopicEnv catalogPaths noDir killedBuild.2.dir := by
  have hrun : main oneTopicEnv catalogPaths (bucketArgs true) CarryForward.sampleSource killedAtRename (Process.start noDir) =
      (killedBuild.1, killedBuild.2) := by
    rw [Prod.mk.eta, killedBuild]
  have hgate : GarbageOnly (circumstancesOf (.ok ⟨0, 0, 0⟩) (some .crash)) := by
    intro e he
    cases List.mem_singleton.mp he
  refine .ran ?_ ?_ hrun
  · exact fun _ hloses => hgate.not_taken hloses.2.1
  · exact fun _ _ => trivial

theorem healed_of_once_sample : ∃ db, secondBuild.2.dir.served.view = .content db ∧
    UpToDate oneTopicEnv CarryForward.sampleSource sampleListings db := by
  have hcode : secondBuild.1.toOption = some 0 := by decide +kernel
  have hout : secondBuild.1 = .ok 0 := by
    cases hout : secondBuild.1 with
    | ok code =>
        rw [hout] at hcode
        exact congrArg Except.ok (Option.some.inj hcode)
    | error halt =>
        rw [hout] at hcode
        cases hcode
  have hrun : main oneTopicEnv catalogPaths (bucketArgs true) CarryForward.sampleSource (courseOf none [] 0 [])
      (Process.start killedBuild.2.dir) = (.ok 0, secondBuild.2) := by
    rw [← hout, Prod.mk.eta, secondBuild]
  exact healed_of_once fingerprintInjective_oneTopicEnv intact_noDir (ReflTransGen.single processStep_killedBuild) rfl hrun
    (settledFrom_sampleSource 0) consistent_sampleSource (Nat.zero_le _) (Nat.zero_le _) rfl rfl

end McapCatalog.Daemon
