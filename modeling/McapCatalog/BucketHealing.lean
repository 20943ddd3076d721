import McapCatalog.Healing

/-!
# A bucket and its rescans

The event path converges only if every removal comes before the creation it precedes (`EventPath.mirrors_iff`).  The periodic
rescan does not care: for a bucket of recordings with different fields, one rescan that goes through after the last change
makes the catalog mirror the bucket, whatever came before it.

* `settledFrom_s3`, `consistent_s3` — a bucket that is not changed any more, as a settled source;
* `mirrors_of_healed` — healed rows are those of the objects;
* `mirrors_of_rescan` — **convergence by rescan**, and the catalog goes on mirroring the bucket.
-/

namespace McapCatalog.EventPath

open McapCatalog.PyText McapCatalog.PyError McapCatalog.KeyParse McapCatalog.McapSummary McapCatalog.Storage
open McapCatalog.Tables McapCatalog.RowidTable McapCatalog.KeyedRows
open McapCatalog.Connection McapCatalog.CatalogDb McapCatalog.Builder McapCatalog.Reconcile McapCatalog.Worker McapCatalog.Runs
open McapCatalog.SurvivingState McapCatalog.SurvivingState.Comp
open Relation

section Bucket

variable {h : BucketHistory} {key key' : PyStr} {dims : Dims} {o o' : S3Object} {t : ℕ}

/-- After its last change a bucket holds what it holds in the end. -/
theorem bucketAt_past (hpast : ∀ c ∈ h.changes, c.1 ≤ t) : h.bucketAt t = h.final := by
  rw [BucketHistory.bucketAt, BucketHistory.final, List.filter_eq_self.mpr fun c hc => decide_eq_true (hpast c hc)]

theorem settledFrom_s3 (hpast : ∀ c ∈ h.changes, c.1 ≤ t) (keyPrefix : PyStr) :
    SettledFrom (s3Source h.bucketAt keyPrefix) t := by
  have hlater : ∀ t', t ≤ t' → h.bucketAt t' = h.bucketAt t := fun t' ht => by
    rw [bucketAt_past hpast, bucketAt_past fun c hc => (hpast c hc).trans ht]
  constructor
  · intro t' ht
    simp only [s3Source, hlater t' ht]
  · intro t' ht
    simp only [s3Source, hlater t' ht]
  · intro t' ht
    simp only [s3Source, hlater t' ht]
  · exact fun _ _ => rfl

/-- The objects of the bucket have different fields. -/
def Distinct (h : BucketHistory) : Prop :=
  ∀ key key' o o' dims, h.final.lookup key = some o → h.final.lookup key' = some o' → parseHiveKey key = some dims →
    parseHiveKey key' = some dims → key = key'

/-- What is there is a recording. -/
theorem recording_of_lookup (hlookup : h.final.lookup key = some o) : ∃ dims, HiveKey key dims ∧ Readable key dims o := by
  obtain ⟨c, hc, hput⟩ := put_of_lookup hlookup
  obtain ⟨dims, hkey, hreadable⟩ := h.recordings c hc
  rw [hput] at hkey hreadable
  exact ⟨dims, hkey, hreadable o rfl⟩

/-- The listing of the bucket in the end. -/
def finalListing (h : BucketHistory) (keyPrefix : PyStr) : List Listing :=
  (h.final.entries.filter fun e => startsWith e.1 keyPrefix && endsWith e.1 (py ".mcap")).map fun e => ⟨e.1, e.2.stat⟩

/-- Every object is listed, and nothing else. -/
theorem mem_finalListing {lst : Listing} : lst ∈ finalListing h [] ↔
    ∃ o, h.final.lookup lst.key = some o ∧ lst.stat = o.stat := by
  have hmem : ∀ {key o}, h.final.lookup key = some o ↔ (⟨key, o⟩ : Sigma fun _ : PyStr => S3Object) ∈ h.final.entries :=
    fun {key o} => AList.mem_lookup_iff
  rw [finalListing, List.mem_map]
  constructor
  · rintro ⟨e, he, rfl⟩
    exact ⟨e.2, hmem.mpr (List.mem_filter.mp he).1, rfl⟩
  · rintro ⟨o, hlookup, hstat⟩
    obtain ⟨dims, hkey, _⟩ := recording_of_lookup hlookup
    refine ⟨⟨lst.key, o⟩, List.mem_filter.mpr ⟨hmem.mp hlookup, ?_⟩, by rw [← hstat]⟩
    rw [Bool.and_eq_true]
    exact ⟨List.isPrefixOf_iff_prefix.mpr List.nil_prefix, hkey.endsWith_mcap⟩

theorem resolution_s3 {effKey : PyStr} (hlookup : h.final.lookup key = some o)
    (hres : resolution (atMoment (s3Source h.bucketAt []) t) key = some (dims, effKey)) :
    effKey = key ∧ HiveKey key dims ∧ Readable key dims o := by
  obtain ⟨dims', hkey, hreadable⟩ := recording_of_lookup hlookup
  have hsame : some (dims, effKey) = some (dims', key) := hres.symm.trans hkey.trusted
  cases hsame
  exact ⟨rfl, hkey, hreadable⟩

theorem readSummary_s3 (hpast : ∀ c ∈ h.changes, c.1 ≤ t) (hlookup : h.final.lookup key = some o)
    (hreadable : Readable key dims o) :
    ∃ summary, (atMoment (s3Source h.bucketAt []) t).readSummary 0 key o.stat.size = .ok summary ∧
      transactionError true ⟨dims, key, o.stat, summary⟩ = none := by
  obtain ⟨parsed, summary, hparse, hsummary, hfits⟩ := hreadable
  refine ⟨summary, ?_, hfits⟩
  have hopen : (atMoment (s3Source h.bucketAt []) t).openSummary 0 key o.stat.size = .ok parsed := by
    show (s3Source h.bucketAt []).openSummary t key o.stat.size = .ok parsed
    simp only [s3Source, bucketAt_past hpast, hlookup]
    exact hparse
  rw [Source.readSummary, hopen]
  exact hsummary

/-- **A bucket after its last change.** -/
theorem consistent_s3 (hpast : ∀ c ∈ h.changes, c.1 ≤ t) (hdistinct : Distinct h) :
    Consistent (atMoment (s3Source h.bucketAt []) t) (finalListing h []) where
  unchanging := unchanging_atMoment _ _
  listed := by
    show (s3Source h.bucketAt []).listAll t = _
    simp only [s3Source, bucketAt_past hpast]
    rfl
  exist lst hlst := by
    obtain ⟨o, hlookup, _⟩ := mem_finalListing.mp hlst
    show (s3Source h.bucketAt []).stat t lst.key ≠ .ok none
    simp only [s3Source, bucketAt_past hpast, hlookup]
    exact fun hnone => Option.some_ne_none _ (Except.ok.inj hnone)
  complete key stat hstat _ := by
    have hfound : (h.final.lookup key).map S3Object.stat = some stat := by
      rw [← bucketAt_past hpast]
      exact Except.ok.inj hstat
    obtain ⟨o, hlookup, ho⟩ := Option.map_eq_some_iff.mp hfound
    exact mem_finalListing.mpr ⟨o, hlookup, ho.symm⟩
  distinct := by
    have hkeys : (finalListing h []).Pairwise fun lst lst' => lst.key ≠ lst'.key := by
      rw [finalListing, List.pairwise_map]
      exact (List.Pairwise.filter _ (List.nodupKeys_iff_pairwise.mp h.final.nodupKeys)).imp fun hne => hne
    rw [listedDims, List.Nodup, List.pairwise_filterMap]
    refine hkeys.imp_of_mem fun {lst lst'} hlst hlst' hne d hd d' hd' hsame => ?_
    obtain ⟨o, hlookup, _⟩ := mem_finalListing.mp hlst
    obtain ⟨o', hlookup', _⟩ := mem_finalListing.mp hlst'
    obtain ⟨⟨_, effKey⟩, hres, rfl⟩ := Option.map_eq_some_iff.mp hd
    obtain ⟨⟨_, effKey'⟩, hres', rfl⟩ := Option.map_eq_some_iff.mp hd'
    have hparse := (resolution_s3 hlookup hres).2.1.parses
    have hparse' := (resolution_s3 hlookup' hres').2.1.parses
    cases hsame
    exact hne (hdistinct _ _ _ _ _ hlookup hlookup' hparse hparse')
  bindable := by
    constructor
    · intro lst hlst
      obtain ⟨o, hlookup, _⟩ := mem_finalListing.mp hlst
      obtain ⟨dims, hkey, _⟩ := recording_of_lookup hlookup
      exact hkey.encodable
    · intro lst hlst dims effKey hres
      obtain ⟨o, hlookup, _⟩ := mem_finalListing.mp hlst
      obtain ⟨rfl, hkey, _⟩ := resolution_s3 hlookup hres
      exact hkey.encodable
    · intro lst hlst e hread
      obtain ⟨o, hlookup, hstat⟩ := mem_finalListing.mp hlst
      obtain ⟨dims, _, hreadable⟩ := recording_of_lookup hlookup
      obtain ⟨summary, hsummary, _⟩ := readSummary_s3 hpast hlookup hreadable
      rw [hstat, hsummary] at hread
      cases hread

variable {env : Env} {db : Db}

theorem IsFile.iff_origin (hdb : DbInv env db) {r : Row FileKey FileCols} (hr : r ∈ db.files.rows) (key : PyStr) :
    IsFile db r key ↔ parseHiveKey key = some r.val.origin.dims := by
  have hnames : db.namesOf r.key = some r.val.origin.dims := namesOf_fileKey (hdb.named r hr)
  constructor
  · rintro ⟨dims, hrow, hparse⟩
    rw [hparse, ← hrow, hnames]
  · exact fun hparse => ⟨_, hnames, hparse⟩

/-- **Healed rows are those of the objects.** -/
theorem mirrors_of_healed (hpast : ∀ c ∈ h.changes, c.1 ≤ t) (hdistinct : Distinct h) (hdb : DbInv env db)
    (hh : Healed (atMoment (s3Source h.bucketAt []) t) (finalListing h []) db.files.rows) : MirrorsBucket db h.final := by
  have hobject : ∀ r ∈ db.files.rows, ∃ key o, h.final.lookup key = some o ∧ parseHiveKey key = some r.val.origin.dims ∧
      r.val.etag = o.stat.etag := by
    intro r hr
    obtain ⟨lst, hlst, effKey, hres, hetag⟩ := hh.only r hr
    obtain ⟨o, hlookup, hstat⟩ := mem_finalListing.mp hlst
    rw [hstat] at hetag
    exact ⟨lst.key, o, hlookup, (resolution_s3 hlookup hres).2.1.parses, hetag⟩
  refine ⟨fun r hr => ?_, fun key o hlookup => ?_, fun r hr key o hfile hlookup => ?_⟩
  · obtain ⟨key, o, hlookup, hparse, _⟩ := hobject r hr
    refine ⟨key, ⟨(IsFile.iff_origin hdb hr key).mpr hparse, by rw [hlookup]; rfl⟩, ?_⟩
    rintro key' ⟨hfile', hsome'⟩
    obtain ⟨o', hlookup'⟩ := Option.isSome_iff_exists.mp hsome'
    exact hdistinct key' key o' o _ hlookup' hlookup ((IsFile.iff_origin hdb hr key').mp hfile') hparse
  · obtain ⟨dims, hkey, hreadable⟩ := recording_of_lookup hlookup
    obtain ⟨summary, hread, hfits⟩ := readSummary_s3 hpast hlookup hreadable
    have hcatalogable : ¬Unfit (atMoment (s3Source h.bucketAt []) t) ⟨key, o.stat⟩ dims key := fun hunfit =>
      hunfit summary hread hfits
    obtain ⟨r, hr, horigin⟩ := hh.cataloged ⟨key, o.stat⟩ (mem_finalListing.mpr ⟨o, hlookup, rfl⟩) dims key
      hkey.trusted hcatalogable
    have hparse : parseHiveKey key = some r.val.origin.dims := by rw [horigin]; exact hkey.parses
    refine ⟨r, ⟨hr, (IsFile.iff_origin hdb hr key).mpr hparse⟩, ?_⟩
    rintro r' ⟨hr', hfile'⟩
    have horigin' : r'.val.origin.dims = r.val.origin.dims :=
      Option.some.inj (((IsFile.iff_origin hdb hr' key).mp hfile').symm.trans hparse)
    exact Option.some.inj ((hdb.rowOf.mpr ⟨hr', horigin'⟩).symm.trans (hdb.rowOf.mpr ⟨hr, rfl⟩))
  · have hparse := (IsFile.iff_origin hdb hr key).mp hfile
    obtain ⟨key', o', hlookup', hparse', hetag⟩ := hobject r hr
    have hsame := hdistinct key key' o o' _ hlookup hlookup' hparse hparse'
    rw [← hsame, hlookup] at hlookup'
    cases hlookup'
    exact hetag

/-- **Convergence by rescan.**  Whatever the daemon has been through — other sources, notifications in any order, statements
that failed, processes that were killed: a rescan that goes through after the last change of a bucket of recordings with
different fields makes the catalog mirror the bucket, and it goes on mirroring it, until a removal of one of its objects is
processed. -/
theorem mirrors_of_rescan (hinj : FingerprintInjective env) {w w' : World} (hrun : CrashRun env w)
    (hpast : ∀ c ∈ h.changes, c.1 ≤ w.clock) (hdistinct : Distinct h) (workers : Workers)
    (hlater : ReflTransGen (SettledStep env (s3Source h.bucketAt []) w.clock (finalListing h []))
      (workItem env (s3Source h.bucketAt []) workers .rescan (scripted w [])).2 w') :
    MirrorsBucket w'.conn.committed h.final := by
  have hsettled := settledFrom_s3 hpast []
  have hc := consistent_s3 hpast hdistinct
  obtain ⟨rows, hhealed, hstill, hclock⟩ := still_of_rescan hinj hrun hsettled hc workers
  obtain ⟨⟨hsound, hcommitted, _⟩, _⟩ := hstill.steps hinj hsettled hc hhealed hclock hlater
  rw [← hcommitted] at hhealed
  exact mirrors_of_healed hpast hdistinct hsound.committed hhealed

end Bucket

theorem distinct_putBack : Distinct putBack := by
  have hkey : ∀ {key o}, putBack.final.lookup key = some o → sampleKey = key := by
    intro key o hlookup
    by_contra hother
    rw [lookup_putBack, if_neg hother] at hlookup
    cases hlookup
  exact fun key key' o o' dims hlookup hlookup' _ _ => (hkey hlookup).symm.trans (hkey hlookup')

/-- The process was killed before; then the rescan. -/
def rescanned : World :=
  (workItem oneTopicEnv (s3Source putBack.bucketAt []) .one .rescan (scripted (Worker.restart staleWorld) [])).2

/-- A process that is killed while it looks at the object once more. -/
theorem mirrors_of_rescan_putBack : ∃ w, SettledStep oneTopicEnv (s3Source putBack.bucketAt [])
    (Worker.restart staleWorld).clock (finalListing putBack []) rescanned w ∧ MirrorsBucket w.conn.committed putBack.final := by
  have hclock : 2 ≤ (Worker.restart staleWorld).clock := by decide +kernel
  have hstep : SettledStep oneTopicEnv (s3Source putBack.bucketAt []) (Worker.restart staleWorld).clock
      (finalListing putBack []) rescanned _ := .lost .one (.catalog sampleKey) rescanned siteFails trivial
  exact ⟨_, hstep, mirrors_of_rescan fingerprintInjective_oneTopicEnv crashRun_staleWorld
    (fun c hc => (past_putBack c hc).trans hclock) distinct_putBack .one (ReflTransGen.single hstep)⟩

end McapCatalog.EventPath
