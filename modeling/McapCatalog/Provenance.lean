import McapCatalog.ReadBack
import McapCatalog.Versions
import McapCatalog.Effects

/-!
# Where a row comes from

The fingerprint of a `files` row comes from a HEAD or a listing, its content from a reading that starts later, and
nothing ties the two requests to one version of the object: no GET is conditional on the ETag.

* `Asks`, `ServedBy` — runs over one source that changes in any way while they go on;
* `OriginsIn`, `ServedBy.origins` — **every row of every run was written from answers of the source**;
* `HasFingerprint`, `HasContent`, `OfVersion` — what the columns of a row say about a version of an object;
* `served_row_of_version` — **the fingerprint of every row is that of one version, its content that of one later
  reading**, and both are of that version if it stood at all requests of the reading;
* `overwritten_torn` — a row whose fingerprint and content are of two versions.
-/

namespace McapCatalog.Builder

open McapCatalog.PyText McapCatalog.PyError McapCatalog.KeyParse McapCatalog.McapSummary McapCatalog.Varint
open McapCatalog.Storage McapCatalog.Tables McapCatalog.RowidTable McapCatalog.KeyedRows
open McapCatalog.Connection McapCatalog.CatalogDb McapCatalog.Reconcile McapCatalog.Worker McapCatalog.Runs

/-! ### Runs over one changing source -/

/-- The call is one of the builder's on this source: it catalogs its objects, or asks it nothing. -/
def Asks (source : Source) (w : World) : Call → Prop
  | .catalogObject key asked stat =>
      asked = source ∧ ∀ st, stat = some st → ∃ t ≤ w.clock, Fingerprinted source t key st
  | .applyExtract _ => False
  | .deleteByKey _ => True
  | .fullReconcile asked _ => asked = source
  | .updateTags _ _ _ => True
  | .restart => True

/-- The worlds a run over one source reaches from an empty catalog.  The source answers each question at its moment, so
overwrites and deletions fall between any two steps. -/
inductive ServedBy (env : Env) (source : Source) : World → Prop where
  | empty (t : ℕ) : ServedBy env source (opened Db.empty t)
  | call {w : World} (h : ServedBy env source w) (c : Call) (hc : Asks source w c) : ServedBy env source (c.run env w)

section ServedBy

variable {env : Env} {source : Source} {w : World}

theorem ServedBy.reached (h : ServedBy env source w) : Reached env w := by
  induction h with
  | empty t => exact Reached.empty t
  | call _ c _ ih => exact ih.call c

/-- Every row was last written from something in `S`. -/
def OriginsIn (S : Set Written) (db : Db) : Prop := ∀ r ∈ db.files.rows, r.val.origin ∈ S

/-- The same of what is committed and of what the connection sees. -/
def BothIn (S : Set Written) : Property := fun db view _ => OriginsIn S db ∧ OriginsIn S view

/-- **Every statement keeps it**: the upsert writes the origin it was given, and no other statement writes one. -/
theorem closed_bothIn (S : Set Written) : Closed (BothIn S) S where
  commit h := ⟨h.2, h.2⟩
  rollBack _ _ _ h := ⟨h.1, h.1⟩
  delete _ _ _ _ h := ⟨h.1, fun r hr => h.2 r (Table.mem_filter.mp hr).1⟩
  beside h hbeside := ⟨h.1, fun r hr => h.2 r (by rw [← hbeside.files]; exact hr)⟩
  upsert hw hrun h := by
    rw [Db.upsertFile] at hrun
    split at hrun
    · cases hrun
      refine ⟨h.1, fun r hr => ?_⟩
      cases Table.mem_upsert.mp hr with
      | inl hold => exact h.2 r hold.1
      | inr hnew => rw [hnew]; exact hw
    · cases hrun
  hasError _ _ _ _ _ h := by
    refine ⟨h.1, fun r hr => ?_⟩
    cases Table.mem_setVal.mp hr with
    | inl hold => exact h.2 r hold.1
    | inr hnew =>
        obtain ⟨r₀, hr₀, _, heq⟩ := hnew
        rw [heq]
        exact h.2 r₀ hr₀
  setCaches _ h := h

/-- **One call** writes only from answers of the source. -/
theorem origins_call {c : Call} (hc : Asks source w c)
    (hw : BothIn (fromSource source Set.univ) w.conn.committed w.conn.working w.caches) :
    BothIn (fromSource source Set.univ) (c.run env w).conn.committed (c.run env w).conn.working (c.run env w).caches := by
  have hI := closed_bothIn (fromSource source Set.univ)
  have hnow : Meets (BothIn (fromSource source Set.univ)) w.clock w := ⟨hw, le_rfl⟩
  cases c with
  | catalogObject key asked stat =>
      obtain ⟨rfl, hstat⟩ := hc
      exact ((keeps_catalogObject hI (Set.mem_univ key) hstat).after hnow).inv
  | applyExtract ex => exact absurd hc id
  | deleteByKey key => exact ((keeps_deleteByKey hI.tame key).after hnow).inv
  | fullReconcile asked workers =>
      obtain rfl := hc
      exact ((keeps_fullReconcile hI (fun _ _ _ _ _ => Set.mem_univ _) workers).after hnow).inv
  | updateTags fileId setKv unsetKeys => exact ((keeps_updateTags hI.tame fileId setKv unsetKeys).after hnow).inv
  | restart => exact ⟨hw.1, hw.1⟩

/-- **Every row of every run was written from answers of the source.** -/
theorem ServedBy.origins (h : ServedBy env source w) :
    BothIn (fromSource source Set.univ) w.conn.committed w.conn.working w.caches := by
  induction h with
  | empty t => exact ⟨fun _ hr => absurd hr List.not_mem_nil, fun _ hr => absurd hr List.not_mem_nil⟩
  | call _ c hc ih => exact origins_call hc ih

/-- The row's content columns are those of a summary: times, chunk count, and the counts of its topics. -/
structure HasContent (db : Db) (cols : FileCols) (summary : FileSummary) : Prop where
  startTime : cols.startTimeNs = summary.startTimeNs
  endTime : cols.endTimeNs = summary.endTimeNs
  chunkCount : cols.chunkCount = summary.chunkCount
  topics : ∃ contents, readTopics db cols = some contents ∧ contents.Perm (mergeChannels summary.channels)

/-- The row's fingerprint columns are those of a fingerprint. -/
structure HasFingerprint (cols : FileCols) (stat : Stat) : Prop where
  etag : cols.etag = stat.etag
  size : cols.sizeBytes = stat.size
  mtime : cols.lastModifiedNs = stat.mtimeNs

theorem hasContent_origin {db : Db} (h : CatalogInv env db) {r : Row FileKey FileCols} (hr : r ∈ db.files.rows) :
    HasContent db r.val r.val.origin.summary := by
  have hcols := h.columns r hr
  obtain ⟨_, contents, _, _, hread, hperm, _⟩ := readTopics_of_encodes (h.encodes r hr)
  exact ⟨congrArg FileCols.startTimeNs hcols, congrArg FileCols.endTimeNs hcols, congrArg FileCols.chunkCount hcols,
    contents, hread, hperm⟩

theorem hasFingerprint_origin {db : Db} (h : CatalogInv env db) {r : Row FileKey FileCols} (hr : r ∈ db.files.rows) :
    HasFingerprint r.val r.val.origin.stat :=
  have hcols := h.columns r hr
  ⟨congrArg FileCols.etag hcols, congrArg FileCols.sizeBytes hcols, congrArg FileCols.lastModifiedNs hcols⟩

/-- A fingerprint that the source gave is that of a version that stood at its moment. -/
theorem version_of_fingerprinted (V : Versions source) {t : ℕ} {key : PyStr} {stat : Stat}
    (h : Fingerprinted source t key stat) : ∃ j v, V.standing t j key v ∧ V.stat v = stat := by
  cases h with
  | inl hhead => exact V.stat_stands t key stat hhead
  | inr hlist =>
      obtain ⟨listings, hall, hmem⟩ := hlist
      exact V.list_stands t listings hall _ hmem

/-- The row is of one version of an object: its fingerprint and its content are that version's. -/
def OfVersion (V : Versions source) (db : Db) (cols : FileCols) (v : V.Version) : Prop :=
  HasFingerprint cols (V.stat v) ∧ ∃ summary, V.content v = .ok summary ∧ HasContent db cols summary

/-- **No row is torn**: each is of one version that stood somewhere at some moment. -/
def NoTornRow (V : Versions source) (db : Db) : Prop :=
  ∀ r ∈ db.files.rows, ∃ key v t j, V.standing t j key v ∧ OfVersion V db r.val v

/-- **Every row of every run** has the fingerprint of one version `v` of its object and the content that one reading of
the object, begun no earlier, came to; if `v` stood at every request of that reading, the row is of `v`. -/
theorem served_row_of_version (hinj : FingerprintInjective env) (V : Versions source) (h : ServedBy env source w)
    {r : Row FileKey FileCols} (hr : r ∈ w.conn.committed.files.rows) :
    ∃ key v t₁ j t₂ summary,
      (∃ t, trustedDims (source.intendedKey t key) key = some (r.val.origin.dims, r.val.origin.effKey)) ∧
      V.standing t₁ j key v ∧ HasFingerprint r.val (V.stat v) ∧ t₁ ≤ t₂ ∧
      source.readSummary t₂ key (V.stat v).size = .ok summary ∧ HasContent w.conn.committed r.val summary ∧
      ((∀ j, V.standing t₂ j key v) → OfVersion V w.conn.committed r.val v) := by
  have hinv := (h.reached.worldInv hinj).committed
  obtain ⟨key, _, t₁, t₂, hcame⟩ := h.origins.1 r hr
  obtain ⟨j, v, hstands, hstat⟩ := version_of_fingerprinted V hcame.fingerprint
  have hfp : HasFingerprint r.val (V.stat v) := by
    rw [hstat]
    exact hasFingerprint_origin hinv hr
  have hread : source.readSummary t₂ key (V.stat v).size = .ok r.val.origin.summary := by
    rw [hstat]
    exact hcame.reading
  have hcontent := hasContent_origin hinv hr
  exact ⟨key, v, t₁, j, t₂, _, hcame.dims, hstands, hfp, hcame.later, hread, hcontent, fun hsame =>
    ⟨hfp, _, V.read_stands t₂ key v _ hsame hread, hcontent⟩⟩

end ServedBy

/-! ### An object overwritten between its HEAD and its reading -/

/-- The version that the HEAD meets. -/
def firstVersion : S3Version := ⟨py "aaa", 5, [1]⟩

/-- The version that takes its place. -/
def secondVersion : S3Version := ⟨py "bbb", 6, [2]⟩

/-- A parser of recordings that are one byte, their chunk count. -/
def chunkParser (_size : ℤ) : Parse :=
  .read 0 1 fun answer =>
    match answer with
    | .ok [n] => .done (.ok (some ⟨some ⟨10, 20, 0, n.toNat, ∅⟩, [], ∅⟩))
    | .ok _ => .done (.ok none)
    | .error e => .done (.error e)

/-- One object, overwritten after its first moment. -/
def overwrittenStore : S3Store where
  object t _ key := .ok (if key = sampleKey then some (if t = 0 then firstVersion else secondVersion) else none)
  pages _ := .ok [[sampleKey]]

/-- The world after that object was cataloged. -/
def afterOverwrite : World :=
  (Call.catalogObject sampleKey (overwrittenStore.source chunkParser) none).run oneTopicEnv (opened Db.empty 0)

theorem served_afterOverwrite : ServedBy oneTopicEnv (overwrittenStore.source chunkParser) afterOverwrite :=
  ServedBy.call (ServedBy.empty 0) (Call.catalogObject sampleKey (overwrittenStore.source chunkParser) none)
    ⟨rfl, fun _ h => by cases h⟩

/-- The row has the ETag of the first version and the chunk count of the second. -/
theorem afterOverwrite_rows : afterOverwrite.conn.committed.files.rows.length = 1 ∧
    afterOverwrite.conn.committed.files.rows.all fun r => r.val.etag = py "aaa" ∧ r.val.chunkCount = 2 := by
  decide +kernel

theorem served_row_of_version_overwritten : ∃ r ∈ afterOverwrite.conn.committed.files.rows,
    ∃ key v t₁ j t₂ summary,
      (∃ t, trustedDims ((overwrittenStore.source chunkParser).intendedKey t key) key =
        some (r.val.origin.dims, r.val.origin.effKey)) ∧
      (overwrittenStore.versions chunkParser).standing t₁ j key v ∧
      HasFingerprint r.val ((overwrittenStore.versions chunkParser).stat v) ∧ t₁ ≤ t₂ ∧
      (overwrittenStore.source chunkParser).readSummary t₂ key
        ((overwrittenStore.versions chunkParser).stat v).size = .ok summary ∧
      HasContent afterOverwrite.conn.committed r.val summary ∧
      ((∀ j, (overwrittenStore.versions chunkParser).standing t₂ j key v) →
        OfVersion (overwrittenStore.versions chunkParser) afterOverwrite.conn.committed r.val v) := by
  have hlen : 0 < afterOverwrite.conn.committed.files.rows.length := by rw [afterOverwrite_rows.1]; decide
  obtain ⟨r, hr⟩ := List.exists_mem_of_length_pos hlen
  exact ⟨r, hr, served_row_of_version fingerprintInjective_oneTopicEnv (overwrittenStore.versions chunkParser)
    served_afterOverwrite hr⟩

/-- **A torn row**: the object is overwritten after its HEAD, and the row's columns are of no version. -/
theorem overwritten_torn :
    ¬NoTornRow (overwrittenStore.versions chunkParser) afterOverwrite.conn.committed := by
  intro hwhole
  have hlen : 0 < afterOverwrite.conn.committed.files.rows.length := by rw [afterOverwrite_rows.1]; decide
  obtain ⟨r, hr⟩ := List.exists_mem_of_length_pos hlen
  have hcols := List.all_eq_true.mp afterOverwrite_rows.2 r hr
  simp only [decide_eq_true_eq] at hcols
  obtain ⟨key, v, t, j, hstands, hfp, summary, hsummary, hcontent⟩ := hwhole r hr
  have hobject : (Except.ok (if key = sampleKey then some (if t = 0 then firstVersion else secondVersion) else none) :
      Except PyErr (Option S3Version)) = .ok (some v) := hstands
  have hversion : v = firstVersion ∨ v = secondVersion := by
    split at hobject
    · split at hobject
      · exact Or.inl (Option.some.inj (Except.ok.inj hobject)).symm
      · exact Or.inr (Option.some.inj (Except.ok.inj hobject)).symm
    · cases hobject
  cases hversion with
  | inl hfirst =>
      have hone : summary.chunkCount = 1 := by
        have hparsed : (overwrittenStore.versions chunkParser).content firstVersion = .ok ⟨10, 20, 0, 1, []⟩ := by rfl
        rw [hfirst, hparsed] at hsummary
        exact (congrArg FileSummary.chunkCount (Except.ok.inj hsummary)).symm
      have htwo := hcontent.chunkCount
      rw [hcols.2, hone] at htwo
      cases htwo
  | inr hsecond =>
      have hetag := hfp.etag
      rw [hcols.1, hsecond] at hetag
      exact absurd hetag (by decide)

end McapCatalog.Builder
