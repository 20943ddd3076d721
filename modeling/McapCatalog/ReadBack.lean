import McapCatalog.Backends
import McapCatalog.Runs

/-!
# Reading a file's topics back

A `files` row stores a topic-set id and a blob of counts; a reader selects the members of the set in topic-id
order and pairs them with the decoded counts by position.

* `readTopics` — that reader; it answers only if both lists are used up exactly;
* `readTopics_of_encodes` — **a row that encodes its summary reads back** to the merged channels, in some order;
* `reached_reads_back` — **every row of every reached catalog reads back** to the summary it was last written
  from.
-/

namespace McapCatalog.Builder

open McapCatalog.PyText McapCatalog.PyError McapCatalog.KeyParse McapCatalog.McapSummary McapCatalog.Varint
open McapCatalog.Tables McapCatalog.RowidTable McapCatalog.KeyedRows McapCatalog.Connection
open McapCatalog.CatalogDb McapCatalog.Runs McapCatalog.Storage McapCatalog.Worker

/-- A member with its count, by names: topic, schema name and encoding, count. -/
def nameMember (db : Db) (e : (ℕ × ℕ) × ℕ) : Option (PyStr × ((PyStr × PyStr) × ℕ)) :=
  match db.topicNames.keyOf e.1.1, db.schemas.keyOf e.1.2 with
  | some topic, some schema => some (topic, (schema, e.2))
  | _, _ => none

/-- The reader of a file's topics. -/
def readTopics (db : Db) (cols : FileCols) : Option (List (PyStr × ((PyStr × PyStr) × ℕ))) :=
  match decodeCountsBlob cols.topicCounts with
  | none => none
  | some counts =>
    if counts.length = (db.selectMembers cols.topicSetId).length then
      ((db.selectMembers cols.topicSetId).zip counts).mapM (nameMember db)
    else none

theorem mapM_cons_eq_some {α β : Type} {f : α → Option β} {a : α} {l : List α} {r : List β} :
    (a :: l).mapM f = some r ↔ ∃ b bs, f a = some b ∧ l.mapM f = some bs ∧ r = b :: bs := by
  rw [List.mapM_cons]
  rcases hf : f a with _ | b
  · simp
  · rcases hl : l.mapM f with _ | bs
    · simp
    · simp [eq_comm]

/-- Mapping a partial function over a rearranged list rearranges the results. -/
theorem mapM_perm {α β : Type} (f : α → Option β) {l l' : List α} (h : l.Perm l') :
    ∀ {r' : List β}, l'.mapM f = some r' → ∃ r, l.mapM f = some r ∧ r.Perm r' := by
  induction h with
  | nil => exact fun hr => ⟨_, hr, List.Perm.refl _⟩
  | cons a _ ih =>
      intro r' hr
      obtain ⟨b, bs, ha, hl, rfl⟩ := mapM_cons_eq_some.mp hr
      obtain ⟨r, hr, hperm⟩ := ih hl
      exact ⟨b :: r, mapM_cons_eq_some.mpr ⟨b, r, ha, hr, rfl⟩, hperm.cons b⟩
  | swap a b l =>
      intro r' hr
      obtain ⟨a', r₁, ha, hr₁, rfl⟩ := mapM_cons_eq_some.mp hr
      obtain ⟨b', bs, hb, hl, rfl⟩ := mapM_cons_eq_some.mp hr₁
      exact ⟨b' :: a' :: bs, mapM_cons_eq_some.mpr ⟨b', _, hb, mapM_cons_eq_some.mpr ⟨a', bs, ha, hl, rfl⟩, rfl⟩,
        List.Perm.swap _ _ _⟩
  | trans _ _ ih₁ ih₂ =>
      intro r' hr
      obtain ⟨r₂, hr₂, hp₂⟩ := ih₂ hr
      obtain ⟨r₁, hr₁, hp₁⟩ := ih₁ hr₂
      exact ⟨r₁, hr₁, hp₁.trans hp₂⟩

theorem zip_map_right {α β : Type} (l : List α) (f : α → β) : l.zip (l.map f) = l.map fun a => (a, f a) := by
  induction l with
  | nil => rfl
  | cons a l ih => rw [List.map_cons, List.zip_cons_cons, ih, List.map_cons]

/-- Naming the entries of a dictionary that stands for `m` gives `m`. -/
theorem mapM_nameMember {db : Db} {b : List (ℕ × (ℕ × ℕ))} {m : List (PyStr × ((PyStr × PyStr) × ℕ))}
    (h : List.Forall₂ (Named db.topicNames db.schemas) b m) :
    (b.map fun e => ((e.1, e.2.1), e.2.2)).mapM (nameMember db) = some m := by
  induction h with
  | nil => rfl
  | @cons e e' b m he _ ih =>
      have hname : nameMember db ((e.1, e.2.1), e.2.2) = some e' := by
        rw [nameMember, Table.idOf_eq_some_iff.mp he.1, Table.idOf_eq_some_iff.mp he.2.1, he.2.2]
      rw [List.map_cons, List.mapM_cons, hname, ih]
      rfl

/-- **A row that encodes its summary reads back** to the merged channels. -/
theorem readTopics_of_encodes {db : Db} {cols : FileCols} (h : Encodes db cols) :
    ∃ counts contents, decodeCountsBlob cols.topicCounts = some counts ∧
      counts.length = (db.selectMembers cols.topicSetId).length ∧
      readTopics db cols = some contents ∧
      contents.Perm (mergeChannels cols.origin.summary.channels) ∧
      counts.sum = cols.origin.summary.messageCount := by
  obtain ⟨byTopic, hnamed, _, hmembers, hblob, hsum⟩ := h
  have hnd : (byTopic.map Prod.fst).Nodup := nodup_of_forall₂ hnamed (nodup_mergeChannels _)
  have hdecode : decodeCountsBlob cols.topicCounts =
      some ((sortPairs (byTopic.map fun e => (e.1, e.2.1))).map fun m => countOf byTopic m.1) := by
    rw [hblob, decodeCountsBlob_encodeCountsBlob]
  have hlen : ((sortPairs (byTopic.map fun e => (e.1, e.2.1))).map fun m => countOf byTopic m.1).length =
      (db.selectMembers cols.topicSetId).length := by rw [List.length_map, hmembers]
  have hperm : ((sortPairs (byTopic.map fun e => (e.1, e.2.1))).map fun m =>
      (m, countOf byTopic m.1)).Perm (byTopic.map fun e => ((e.1, e.2.1), e.2.2)) := by
    have hentries : byTopic.map (fun e => ((e.1, e.2.1), e.2.2)) =
        (byTopic.map fun e => (e.1, e.2.1)).map fun m => (m, countOf byTopic m.1) := by
      rw [List.map_map]
      apply List.map_congr_left
      intro e he
      show _ = ((e.1, e.2.1), countOf byTopic e.1)
      rw [countOf_eq hnd he]
    rw [hentries]
    exact (sortPairs_perm _).map _
  obtain ⟨contents, hcontents, hp⟩ := mapM_perm (nameMember db) hperm (mapM_nameMember hnamed)
  refine ⟨_, contents, hdecode, hlen, ?_, hp, ?_⟩
  · rw [readTopics, hdecode]
    simp only
    rw [if_pos hlen, hmembers, zip_map_right, hcontents]
  · rw [sum_counts hnd, sum_forall₂ hnamed, sum_mergeChannels, hsum]

/-- An entry of the merged channels, spelled out. -/
theorem mem_mergeChannels {channels : List ChannelInfo} {e : PyStr × ((PyStr × PyStr) × ℕ)}
    (h : e ∈ mergeChannels channels) :
    ∃ first, (carrying e.1 channels).head? = some first ∧
      e.2.1 = (first.schemaName, first.schemaEncoding) ∧
      e.2.2 = ((carrying e.1 channels).map ChannelInfo.messageCount).sum := by
  have hentry := (entry_eq_some_iff (nodup_mergeChannels channels)).mpr ⟨h, rfl⟩
  rw [entry_mergeChannels] at hentry
  obtain ⟨first, hfirst, heq⟩ := Option.map_eq_some_iff.mp hentry
  refine ⟨first, hfirst, ?_, ?_⟩
  · exact (congrArg (fun e => e.2.1) heq).symm
  · exact (congrArg (fun e => e.2.2) heq).symm

/-- The merged channels name exactly the topics that occur. -/
theorem mem_topics_mergeChannels (channels : List ChannelInfo) (topic : PyStr) :
    topic ∈ (mergeChannels channels).map Prod.fst ↔ ∃ ch ∈ channels, ch.topic = topic := by
  constructor
  · intro h
    obtain ⟨e, he, rfl⟩ := List.mem_map.mp h
    obtain ⟨first, hfirst, _⟩ := mem_mergeChannels he
    have hmem := List.mem_of_mem_head? hfirst
    rw [carrying, List.mem_filter] at hmem
    exact ⟨first, hmem.1, by simpa using hmem.2⟩
  · rintro ⟨ch, hch, rfl⟩
    have hcarry : ch ∈ carrying ch.topic channels := by
      rw [carrying, List.mem_filter]
      exact ⟨hch, by simp⟩
    have hentry := entry_mergeChannels channels ch.topic
    rcases hc : carrying ch.topic channels with _ | ⟨c, cs⟩
    · rw [hc] at hcarry
      exact absurd hcarry List.not_mem_nil
    · rw [hc] at hentry
      have := (entry_eq_some_iff (nodup_mergeChannels channels)).mp hentry
      exact List.mem_map.mpr ⟨_, this.1, this.2⟩

/-- The stored `has_error` of a row. -/
theorem hasError_eq_one_iff {env : Env} {db : Db} (h : CatalogInv env db) {r : Row FileKey FileCols}
    (hr : r ∈ db.files.rows) :
    r.val.hasError = 1 ↔ r.val.origin.summary.messageCount = 0 ∨
      ∃ k v, db.tagsEmbedded.lookup (r.id, k) = some v ∧ isErrorTag k v = true := by
  have hcols : r.val.hasError = hasErrorOf r.val.origin.summary := by
    rw [h.columns r hr]
    rfl
  rw [hcols, hasErrorOf]
  constructor
  · intro hone
    by_contra hnot
    rw [not_or] at hnot
    rw [if_neg] at hone
    · cases hone
    · rintro (hany | hzero)
      · obtain ⟨kv, hkv, herr⟩ := List.any_eq_true.mp hany
        exact hnot.2 ⟨kv.1, kv.2, (h.embedded r hr kv.1 kv.2).mpr hkv, herr⟩
      · exact hnot.1 hzero
  · rintro (hzero | ⟨k, v, hkv, herr⟩)
    · exact if_pos (Or.inr hzero)
    · exact if_pos (Or.inl (List.any_eq_true.mpr ⟨(k, v), (h.embedded r hr k v).mp hkv, herr⟩))

/-- **Every row of every reached catalog reads back to the summary it was last written from.**  This holds of
the committed database and of what the writer's own connection sees. -/
theorem reached_reads_back {env : Env} (hinj : FingerprintInjective env) {w : World} (hw : Reached env w)
    {db : Db} (hdb : db = w.conn.committed ∨ db = w.conn.working) {r : Row FileKey FileCols}
    (hr : r ∈ db.files.rows) :
    ∃ counts contents,
      decodeCountsBlob r.val.topicCounts = some counts ∧
      counts.length = (db.selectMembers r.val.topicSetId).length ∧
      ((db.selectMembers r.val.topicSetId).zip counts).mapM (nameMember db) = some contents ∧
      (contents.map Prod.fst).Nodup ∧
      (∀ topic, topic ∈ contents.map Prod.fst ↔
        ∃ ch ∈ r.val.origin.summary.channels, ch.topic = topic) ∧
      (∀ e ∈ contents, ∃ first, (carrying e.1 r.val.origin.summary.channels).head? = some first ∧
        e.2.1 = (first.schemaName, first.schemaEncoding) ∧
        e.2.2 = ((carrying e.1 r.val.origin.summary.channels).map ChannelInfo.messageCount).sum) ∧
      counts.sum = r.val.origin.summary.messageCount ∧
      (r.val.hasError = 1 ↔ counts.sum = 0 ∨
        ∃ k v, db.tagsEmbedded.lookup (r.id, k) = some v ∧ isErrorTag k v = true) := by
  have hinv : CatalogInv env db := by
    rcases hdb with rfl | rfl
    · exact (hw.worldInv hinj).committed
    · exact (hw.worldInv hinj).working
  obtain ⟨counts, contents, hdecode, hlen, hread, hperm, hsum⟩ := readTopics_of_encodes (hinv.encodes r hr)
  have hzip : ((db.selectMembers r.val.topicSetId).zip counts).mapM (nameMember db) = some contents := by
    rw [readTopics, hdecode] at hread
    simp only at hread
    rwa [if_pos hlen] at hread
  have htopics : (contents.map Prod.fst).Perm
      ((mergeChannels r.val.origin.summary.channels).map Prod.fst) := hperm.map _
  refine ⟨counts, contents, hdecode, hlen, hzip, htopics.nodup_iff.mpr (nodup_mergeChannels _), ?_, ?_, hsum, ?_⟩
  · intro topic
    rw [htopics.mem_iff, mem_topics_mergeChannels]
  · intro e he
    exact mem_mergeChannels (hperm.mem_iff.mp he)
  · rw [hsum]
    exact hasError_eq_one_iff hinv hr

/-- A summary with two channels on one topic, of which the second is empty. -/
def twoChannelSummary : Summary where
  statistics := some ⟨10, 20, 3, 1, (∅ : Rows ℕ ℕ).insert 7 3⟩
  channels := [⟨7, py "/scan", 1⟩, ⟨8, py "/scan", 1⟩]
  schemas := (∅ : Rows ℕ Schema).insert 1 ⟨py "LaserScan", py "ros2msg"⟩

/-- The folder of the example recordings, by its code points: a literal is decoded anew wherever it is evaluated. -/
def sampleFolder : PyStr :=
  [99, 117, 115, 116, 111, 109, 101, 114, 61, 97, 99, 109, 101, 47, 99, 117, 115, 116, 111, 109, 101, 114, 95, 115, 105, 116,
   101, 61, 98, 101, 114, 108, 105, 110, 47, 114, 111, 98, 111, 116, 61, 114, 49, 47, 115, 111, 117, 114, 99, 101, 61, 98, 97,
   103, 47, 100, 97, 116, 101, 61, 50, 48, 50, 54, 45, 48, 53, 45, 49, 57, 47]

theorem sampleFolder_eq : sampleFolder = py "customer=acme/customer_site=berlin/robot=r1/source=bag/date=2026-05-19/" := by decide +kernel

/-- The key of the example recording. -/
def sampleKey : PyStr := sampleFolder ++ py "a.mcap"

/-- The identity of the example recording. -/
def sampleDims : Dims := ⟨py "acme", py "berlin", py "r1", py "bag", py "2026-05-19", py "a.mcap"⟩

/-- A bucket with one readable recording. -/
def oneObjectBucket : Bucket :=
  (∅ : Bucket).insert sampleKey ⟨py "abc", 100, 5, fun _ => .ok (some twoChannelSummary)⟩

/-- The world after that recording was cataloged. -/
def afterOneCatalog : World :=
  (Call.catalogObject sampleKey (s3Source (fun _ => oneObjectBucket) []) none).run oneTopicEnv
    (opened Db.empty 0)

theorem reached_reads_back_one : ∃ r ∈ afterOneCatalog.conn.committed.files.rows,
    ∃ counts contents,
      decodeCountsBlob r.val.topicCounts = some counts ∧
      counts.length = (afterOneCatalog.conn.committed.selectMembers r.val.topicSetId).length ∧
      ((afterOneCatalog.conn.committed.selectMembers r.val.topicSetId).zip counts).mapM
        (nameMember afterOneCatalog.conn.committed) = some contents ∧
      (contents.map Prod.fst).Nodup ∧
      (∀ topic, topic ∈ contents.map Prod.fst ↔
        ∃ ch ∈ r.val.origin.summary.channels, ch.topic = topic) ∧
      (∀ e ∈ contents, ∃ first, (carrying e.1 r.val.origin.summary.channels).head? = some first ∧
        e.2.1 = (first.schemaName, first.schemaEncoding) ∧
        e.2.2 = ((carrying e.1 r.val.origin.summary.channels).map ChannelInfo.messageCount).sum) ∧
      counts.sum = r.val.origin.summary.messageCount ∧
      (r.val.hasError = 1 ↔ counts.sum = 0 ∨
        ∃ k v, afterOneCatalog.conn.committed.tagsEmbedded.lookup (r.id, k) = some v ∧
          isErrorTag k v = true) := by
  have hlen : 0 < afterOneCatalog.conn.committed.files.rows.length := by decide +kernel
  obtain ⟨r, hr⟩ := List.exists_mem_of_length_pos hlen
  have hreached : Reached oneTopicEnv afterOneCatalog :=
    Reached.call (Reached.empty 0) (Call.catalogObject sampleKey (s3Source (fun _ => oneObjectBucket) []) none)
  exact ⟨r, hr, reached_reads_back fingerprintInjective_oneTopicEnv hreached (Or.inl rfl) hr⟩

end McapCatalog.Builder
