import McapCatalog.ReconcileView
import McapCatalog.ReadBack
import McapCatalog.Runs

/-!
# When two files share a topic set

Topic sets are deduplicated by fingerprint, so which files share one is decided by their summaries alone, whatever
ids their topics and schemas were given.

* `topicsOf` — the topics of a summary with their schemas, once each;
* `sameSet_iff` — **two rows share a topic set exactly if their summaries have the same topics with the same
  schemas**;
* `SameRow`, `sameRow_of_origin` — rows written from the same summary say the same.
-/

namespace McapCatalog.Builder

open McapCatalog.PyText McapCatalog.McapSummary McapCatalog.Tables McapCatalog.RowidTable
open McapCatalog.KeyedRows McapCatalog.Connection McapCatalog.CatalogDb

/-- The topics of a summary with the schema of each one's first channel. -/
def topicsOf (summary : FileSummary) : List (PyStr × (PyStr × PyStr)) :=
  (mergeChannels summary.channels).map fun e => (e.1, e.2.1)

theorem perm_of_map_some {α : Type} {l l' : List α} (h : (l.map some).Perm (l'.map some)) : l.Perm l' := by
  have hid : ∀ l : List α, (l.map some).filterMap id = l := by
    intro l
    rw [List.filterMap_map]
    exact List.filterMap_some
  have := h.filterMap id
  rwa [hid, hid] at this

/-- Members are determined by which there are. -/
theorem selectMembers_eq_of_perm {db : Db} {s s' : ℕ} (h : (db.selectMembers s).Perm (db.selectMembers s')) :
    db.selectMembers s = db.selectMembers s' := by
  have hirr : Std.Irrefl (fun p q : ℕ × ℕ => p.1 < q.1) := ⟨fun p => lt_irrefl p.1⟩
  have hasymm : Std.Antisymm (fun p q : ℕ × ℕ => p.1 < q.1) := ⟨fun p q h h' => absurd h (lt_asymm h')⟩
  exact (selectMembers_strict db s).eq_of_mem_iff (selectMembers_strict db s') fun p => h.mem_iff

section Naming

variable {db : Db} {b : List (ℕ × (ℕ × ℕ))} {m : List (PyStr × ((PyStr × PyStr) × ℕ))}

/-- The names of a member. -/
def memberNames (db : Db) (p : ℕ × ℕ) : Option (PyStr × (PyStr × PyStr)) :=
  match db.topicNames.keyOf p.1, db.schemas.keyOf p.2 with
  | some topic, some schema => some (topic, schema)
  | _, _ => none

/-- The ids of a topic and its schema. -/
def memberIds (db : Db) (e : PyStr × (PyStr × PyStr)) : Option (ℕ × ℕ) :=
  match db.topicNames.idOf e.1, db.schemas.idOf e.2 with
  | some topicId, some schemaId => some (topicId, schemaId)
  | _, _ => none

theorem map_memberNames (h : List.Forall₂ (Named db.topicNames db.schemas) b m) :
    (b.map fun e => (e.1, e.2.1)).map (memberNames db) = (m.map fun e => (e.1, e.2.1)).map some := by
  induction h with
  | nil => rfl
  | @cons e e' b m he _ ih =>
      have hone : memberNames db (e.1, e.2.1) = some (e'.1, e'.2.1) := by
        rw [memberNames, Table.idOf_eq_some_iff.mp he.1, Table.idOf_eq_some_iff.mp he.2.1]
      simp only [List.map_cons, hone, ih]

theorem map_memberIds (h : List.Forall₂ (Named db.topicNames db.schemas) b m) :
    (m.map fun e => (e.1, e.2.1)).map (memberIds db) = (b.map fun e => (e.1, e.2.1)).map some := by
  induction h with
  | nil => rfl
  | @cons e e' b m he _ ih =>
      have hone : memberIds db (e'.1, e'.2.1) = some (e.1, e.2.1) := by
        rw [memberIds, he.1, he.2.1]
      simp only [List.map_cons, hone, ih]

end Naming

/-- **Two files share a topic set exactly if they have the same topics with the same schemas.** -/
theorem sameSet_iff {env : Env} {db : Db} (hinv : CatalogInv env db) {r r' : Row FileKey FileCols}
    (hr : r ∈ db.files.rows) (hr' : r' ∈ db.files.rows) :
    r.val.topicSetId = r'.val.topicSetId ↔
      (topicsOf r.val.origin.summary).Perm (topicsOf r'.val.origin.summary) := by
  obtain ⟨b, hnamed, hset, hmembers, _⟩ := hinv.encodes r hr
  obtain ⟨b', hnamed', hset', hmembers', _⟩ := hinv.encodes r' hr'
  have hpairs : ∀ {b : List (ℕ × (ℕ × ℕ))} {s : ℕ}, db.selectMembers s = sortPairs (b.map fun e => (e.1, e.2.1)) →
      (db.selectMembers s).Perm (b.map fun e => (e.1, e.2.1)) := fun h => h ▸ sortPairs_perm _
  constructor
  · intro hid
    have hids : (b.map fun e => (e.1, e.2.1)).Perm (b'.map fun e => (e.1, e.2.1)) := by
      have h := hpairs hmembers
      rw [hid] at h
      exact h.symm.trans (hpairs hmembers')
    have hnames := hids.map (memberNames db)
    rw [map_memberNames hnamed, map_memberNames hnamed'] at hnames
    exact perm_of_map_some hnames
  · intro hp
    have hids := hp.map (memberIds db)
    rw [topicsOf, topicsOf, map_memberIds hnamed, map_memberIds hnamed'] at hids
    have hmem := selectMembers_eq_of_perm
      ((hpairs hmembers).trans ((perm_of_map_some hids).trans (hpairs hmembers').symm))
    obtain ⟨s, hs⟩ := Option.isSome_iff_exists.mp hset
    obtain ⟨s', hs'⟩ := Option.isSome_iff_exists.mp hset'
    obtain ⟨hsmem, hsid⟩ := Table.get_eq_some_iff.mp hs
    obtain ⟨hsmem', hsid'⟩ := Table.get_eq_some_iff.mp hs'
    have hkey : s.key = s'.key := by
      rw [hinv.topics.fingerprints s hsmem, hinv.topics.fingerprints s' hsmem', hsid, hsid', hmem]
    rw [← hsid, ← hsid', db.topicSets.eq_of_key_eq hsmem hsmem' hkey]

/-! ### Rows that say the same -/

/-- Two rows of two databases that say the same of a recording. -/
structure SameRow (db db' : Db) (r r' : Row FileKey FileCols) : Prop where
  etag : r.val.etag = r'.val.etag
  sizeBytes : r.val.sizeBytes = r'.val.sizeBytes
  lastModifiedNs : r.val.lastModifiedNs = r'.val.lastModifiedNs
  startTimeNs : r.val.startTimeNs = r'.val.startTimeNs
  endTimeNs : r.val.endTimeNs = r'.val.endTimeNs
  chunkCount : r.val.chunkCount = r'.val.chunkCount
  hasError : r.val.hasError = r'.val.hasError
  topics : ∃ contents contents', readTopics db r.val = some contents ∧ readTopics db' r'.val = some contents' ∧
    contents.Perm contents'

/-- Rows written from the same input say the same. -/
theorem sameRow_of_origin {env : Env} {db db' : Db} (hinv : CatalogInv env db) (hinv' : CatalogInv env db')
    {r r' : Row FileKey FileCols} (hr : r ∈ db.files.rows) (hr' : r' ∈ db'.files.rows)
    (h : r.val.origin = r'.val.origin) : SameRow db db' r r' := by
  have hcols := hinv.columns r hr
  have hcols' := hinv'.columns r' hr'
  obtain ⟨_, contents, _, _, hread, hperm, _⟩ := readTopics_of_encodes (hinv.encodes r hr)
  obtain ⟨_, contents', _, _, hread', hperm', _⟩ := readTopics_of_encodes (hinv'.encodes r' hr')
  rw [h] at hcols hperm
  refine ⟨?_, ?_, ?_, ?_, ?_, ?_, ?_, contents, contents', hread, hread', hperm.trans hperm'.symm⟩ <;>
    rw [hcols, hcols'] <;> rfl

end McapCatalog.Builder
