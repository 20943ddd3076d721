import McapCatalog.OrderIndependence

/-!
# Topic sets over a run

Topic sets are found again by the hash of their members' ids, through a cache and a table, in transactions that may be
rolled back after they handed out ids.

* `Deduplicated` — one set for each layout: files share a set exactly if they have one layout, no two sets have the same
  members, and every set goes by the fingerprint of its members;
* `deduplicated_of_inv` — **a well-formed catalog is deduplicated**;
* `Continues` — how a run goes on from a world, and `SetKept`: a set that is there keeps its members and their names;
* `Call.topicsGrow` — no call changes a set, whichever way it exits;
* `topicSets_deduplicated` — **in every reached world the sets are deduplicated, and they stay as they are**.
-/

namespace McapCatalog.Runs

open McapCatalog.PyText McapCatalog.McapSummary McapCatalog.Storage McapCatalog.Tables McapCatalog.RowidTable
open McapCatalog.Connection McapCatalog.CatalogDb McapCatalog.Builder McapCatalog.Worker
open Relation

/-! ### One set for each layout -/

/-- **The topic sets are deduplicated.** -/
structure Deduplicated (env : Env) (db : Db) : Prop where
  shared : ∀ r ∈ db.files.rows, ∀ r' ∈ db.files.rows, r.val.topicSetId = r'.val.topicSetId ↔
    ∀ entry, entry ∈ topicsOf r.val.origin.summary ↔ entry ∈ topicsOf r'.val.origin.summary
  members : ∀ s ∈ db.topicSets.rows, ∀ s' ∈ db.topicSets.rows,
    (∀ member, member ∈ db.selectMembers s.id ↔ member ∈ db.selectMembers s'.id) → s = s'
  fingerprints : ∀ s ∈ db.topicSets.rows, s.key = computeSetFingerprint env (db.selectMembers s.id)

theorem nodup_topicsOf (summary : FileSummary) : (topicsOf summary).Nodup := by
  have hkeys := nodup_mergeChannels summary.channels
  refine List.Nodup.of_map Prod.fst ?_
  rw [topicsOf, List.map_map]
  exact hkeys

/-- **A well-formed catalog is deduplicated.** -/
theorem deduplicated_of_inv {env : Env} {db : Db} (hinv : CatalogInv env db) : Deduplicated env db where
  shared r hr r' hr' := by
    rw [sameSet_iff hinv hr hr']
    exact List.perm_ext_iff_of_nodup (nodup_topicsOf _) (nodup_topicsOf _)
  members s hs s' hs' hsame := by
    have hmembers : db.selectMembers s.id = db.selectMembers s'.id := by
      have hnodup : ∀ i, (db.selectMembers i).Nodup := fun i =>
        (selectMembers_strict db i).imp fun {p q} hlt heq => by
          rw [heq] at hlt
          exact lt_irrefl _ hlt
      exact selectMembers_eq_of_perm ((List.perm_ext_iff_of_nodup (hnodup _) (hnodup _)).mpr hsame)
    have hkey : s.key = s'.key := by
      rw [hinv.topics.fingerprints s hs, hinv.topics.fingerprints s' hs', hmembers]
    exact db.topicSets.eq_of_key_eq hs hs' hkey
  fingerprints := hinv.topics.fingerprints

/-! ### Sets stay as they are -/

/-- A run goes on. -/
def Continues (env : Env) : World → World → Prop := ReflTransGen fun w w' => ∃ c : Call, w' = c.run env w

/-- A set is still there, with the same members under the same names. -/
structure SetKept (s : Row PyStr Unit) (db db' : Db) : Prop where
  there : s ∈ db'.topicSets.rows
  members : db'.selectMembers s.id = db.selectMembers s.id
  names : ∀ member ∈ db.selectMembers s.id, memberNames db' member = memberNames db member

theorem setKept_of_topicsGrow {env : Env} {db db' : Db} (htopics : TopicsInv env db) (hgrow : TopicsGrow db db')
    {s : Row PyStr Unit} (hs : s ∈ db.topicSets.rows) : SetKept s db db' where
  there := hgrow.topicSets.mem hs
  members := hgrow.members s.id (by rw [Table.get_of_mem hs]; rfl)
  names := by
    rintro ⟨topicId, schemaId⟩ hmember
    obtain ⟨_, htopic, hschema⟩ := htopics.memberRefs s.id topicId schemaId (mem_selectMembers.mp hmember)
    obtain ⟨topic, htopic⟩ := Option.isSome_iff_exists.mp htopic
    obtain ⟨schema, hschema⟩ := Option.isSome_iff_exists.mp hschema
    have hone : db.topicNames.keyOf topicId = some topic.key := by
      rw [Table.keyOf, htopic]
      rfl
    have htwo : db.schemas.keyOf schemaId = some schema.key := by
      rw [Table.keyOf, hschema]
      rfl
    rw [memberNames, memberNames, hone, htwo, hgrow.topicNames.keyOf hone, hgrow.schemas.keyOf htwo]

/-- What the connection holds back changes no topic. -/
theorem topicsGrow_of_behind {committed working : Db} (h : Behind committed working) :
    TopicsGrow committed working ∧ TopicsGrow working committed :=
  ⟨TopicsGrow.of_eq h.topicNames h.schemas h.topicSets h.topicSetMembers,
    TopicsGrow.of_eq h.topicNames.symm h.schemas.symm h.topicSets.symm h.topicSetMembers.symm⟩

/-- **No call changes a topic set**, whichever way it exits. -/
theorem Call.topicsGrow {env : Env} (hinj : FingerprintInjective env) {w : World} (hw : WorldInv env w) (c : Call) :
    TopicsGrow w.conn.working (c.run env w).conn.working := by
  have hbehind := topicsGrow_of_behind hw.behind
  cases c with
  | catalogObject key source stat => exact (path_grows (builds_catalogObject hinj key source stat w hw).2).2
  | applyExtract ex => exact (path_grows (builds_applyExtract hinj ex w hw).2).2
  | deleteByKey key => exact (path_grows (builds_deleteByKey key w hw).2).2
  | fullReconcile source workers => exact (path_grows (builds_fullReconcile hinj source workers w hw).2).2
  | updateTags fileId setKv unsetKeys =>
      have hcases := updateTags_cases env hw.quiet fileId setKv unsetKeys
      cases hcases with
      | inl hreturned =>
          obtain ⟨hrun, honly⟩ := hreturned
          obtain ⟨overrides, hdb⟩ := honly.only
          show TopicsGrow w.conn.working (CatalogDb.updateTags env fileId setKv unsetKeys w).2.conn.working
          rw [hrun]
          show TopicsGrow w.conn.working (edited fileId (env.timeNs w.clock) setKv unsetKeys w.conn.working)
          rw [hdb]
          exact TopicsGrow.of_eq rfl rfl rfl rfl
      | inr hraised =>
          obtain ⟨e, hrun⟩ := hraised
          show TopicsGrow w.conn.working (CatalogDb.updateTags env fileId setKv unsetKeys w).2.conn.working
          rw [hrun]
          exact hbehind.2
  | restart => exact hbehind.2

theorem Continues.topicsGrow {env : Env} (hinj : FingerprintInjective env) {w w' : World} (h : Continues env w w')
    (hw : WorldInv env w) : WorldInv env w' ∧ TopicsGrow w.conn.working w'.conn.working := by
  induction h with
  | refl => exact ⟨hw, TopicsGrow.refl _⟩
  | tail _ hstep ih =>
      obtain ⟨c, rfl⟩ := hstep
      exact ⟨c.worldInv hinj ih.1, ih.2.trans (c.topicsGrow hinj ih.1)⟩

/-- **In every reached world the topic sets are deduplicated**, in what is committed and in what the connection sees, and
however the run goes on every set stays, with its members and their names. -/
theorem topicSets_deduplicated {env : Env} (hinj : FingerprintInjective env) {w : World} (hreached : Reached env w) :
    Deduplicated env w.conn.committed ∧ Deduplicated env w.conn.working ∧ ∀ w', Continues env w w' →
      (∀ s ∈ w.conn.working.topicSets.rows, SetKept s w.conn.working w'.conn.working) ∧
        ∀ s ∈ w.conn.committed.topicSets.rows, SetKept s w.conn.committed w'.conn.committed := by
  have hworld := hreached.worldInv hinj
  refine ⟨deduplicated_of_inv hworld.committed, deduplicated_of_inv hworld.working, fun w' hlater => ?_⟩
  obtain ⟨hworld', hgrow⟩ := hlater.topicsGrow hinj hworld
  have hcommitted : TopicsGrow w.conn.committed w'.conn.committed :=
    ((topicsGrow_of_behind hworld.behind).1.trans hgrow).trans (topicsGrow_of_behind hworld'.behind).2
  exact ⟨fun s hs => setKept_of_topicsGrow hworld.working.topics hgrow hs,
    fun s hs => setKept_of_topicsGrow hworld.committed.topics hcommitted hs⟩

/-- Two recordings with the same topics. -/
def twoFilesSource : Source :=
  s3Source (fun _ => oneObjectBucket.insert secondKey ⟨py "bcd", 110, 6, fun _ => .ok (some twoChannelSummary)⟩) []

/-- The world after a reconcile of both. -/
def afterTwoFiles : World := (Call.fullReconcile twoFilesSource .one).run oneTopicEnv (opened Db.empty 0)

theorem rows_afterTwoFiles :
    afterTwoFiles.conn.committed.files.rows.map (fun r => (r.val.etag, topicsOf r.val.origin.summary)) =
      [(py "bcd", [(py "/scan", (py "LaserScan", py "ros2msg"))]),
        (py "abc", [(py "/scan", (py "LaserScan", py "ros2msg"))])] := by
  decide +kernel

/-- They share one set, and the sets stay. -/
theorem topicSets_deduplicated_twoFiles : ∃ r ∈ afterTwoFiles.conn.committed.files.rows,
    ∃ r' ∈ afterTwoFiles.conn.committed.files.rows, r.val.etag = py "bcd" ∧ r'.val.etag = py "abc" ∧
      r.val.topicSetId = r'.val.topicSetId ∧ ∀ w', Continues oneTopicEnv afterTwoFiles w' →
        ∀ s ∈ afterTwoFiles.conn.committed.topicSets.rows, SetKept s afterTwoFiles.conn.committed w'.conn.committed := by
  have hreached : Reached oneTopicEnv afterTwoFiles := (Reached.empty 0).call (.fullReconcile twoFilesSource .one)
  obtain ⟨hcommitted, _, hkept⟩ := topicSets_deduplicated fingerprintInjective_oneTopicEnv hreached
  have hrow : ∀ p ∈ [(py "bcd", [(py "/scan", (py "LaserScan", py "ros2msg"))]),
      (py "abc", [(py "/scan", (py "LaserScan", py "ros2msg"))])],
      ∃ r ∈ afterTwoFiles.conn.committed.files.rows, (r.val.etag, topicsOf r.val.origin.summary) = p := by
    rw [← rows_afterTwoFiles]
    exact fun p hp => List.mem_map.mp hp
  obtain ⟨r, hr, hfirst⟩ := hrow _ List.mem_cons_self
  obtain ⟨r', hr', hsecond⟩ := hrow _ (List.mem_cons_of_mem _ List.mem_cons_self)
  obtain ⟨hetag, htopics⟩ := Prod.mk.inj hfirst
  obtain ⟨hetag', htopics'⟩ := Prod.mk.inj hsecond
  have hshared : r.val.topicSetId = r'.val.topicSetId := by
    refine (hcommitted.shared r hr r' hr').mpr fun entry => ?_
    rw [htopics, htopics']
  exact ⟨r, hr, r', hr', hetag, hetag', hshared, fun w' hlater => (hkept w' hlater).2⟩

end McapCatalog.Runs
