import McapCatalog.FileRow

/-!
# The invariant of the catalog database

What holds of the database whatever the builder did to it, and why each kind of change keeps it.

* `CatalogInv` — references resolve, names bind, every `files` row encodes the summary it was written from and
  carries its columns, and its embedded tags are the derived ones;
* `DimsGrow` — how resolving dimensions changes a database;
* `CatalogInv.frame` — **the frame rule**: the invariant survives any change that grows tables, drops files with
  their tags, and leaves the rest of each remaining row alone;
* `CatalogInv.wrote`, `.deleteFiles`, ... — one lemma for each change the program makes.
-/

namespace McapCatalog.Builder

open McapCatalog.PyText McapCatalog.PyError McapCatalog.KeyParse McapCatalog.McapSummary
open McapCatalog.Storage McapCatalog.Varint McapCatalog.Tables McapCatalog.RowidTable
open McapCatalog.KeyedRows McapCatalog.Connection McapCatalog.CatalogDb

/-- The ids in a `files` key. -/
def keyIds (key : FileKey) : Ids := ⟨key.customerId, key.siteId, key.robotId, key.sourceId⟩

/-- The invariant of the catalog database. -/
structure CatalogInv (env : Env) (db : Db) : Prop where
  topics : TopicsInv env db
  customerBound : Lookup.customer.Bound db
  siteBound : Lookup.site.Bound db
  robotBound : Lookup.robot.Bound db
  sourceBound : Lookup.source.Bound db
  fileRefs : ∀ r ∈ db.files.rows, idsPresent db (keyIds r.key) = true
  encodes : ∀ r ∈ db.files.rows, Encodes db r.val
  columns : ∀ r ∈ db.files.rows,
    r.val = storedCols r.val.origin r.val.catalogedAtNs r.val.topicSetId r.val.topicCounts
  embedded : ∀ r ∈ db.files.rows, ∀ k v,
    db.tagsEmbedded.lookup (r.id, k) = some v ↔ (k, v) ∈ deriveTags r.val.origin.summary
  embeddedRefs : ∀ i k, (db.tagsEmbedded.lookup (i, k)).isSome → (db.files.get i).isSome
  overrideRefs : ∀ i k, (db.tagsOverride.lookup (i, k)).isSome → (db.files.get i).isSome

theorem catalogInv_empty (env : Env) : CatalogInv env Db.empty where
  topics :=
    { topicBound := fun _ hr => absurd hr List.not_mem_nil
      schemaBound := fun _ hr => absurd hr List.not_mem_nil
      memberRefs := fun _ _ _ h => absurd h (by simp [Db.empty])
      fingerprints := fun _ hr => absurd hr List.not_mem_nil }
  customerBound := fun _ hr => absurd hr List.not_mem_nil
  siteBound := fun _ hr => absurd hr List.not_mem_nil
  robotBound := fun _ hr => absurd hr List.not_mem_nil
  sourceBound := fun _ hr => absurd hr List.not_mem_nil
  fileRefs := fun _ hr => absurd hr List.not_mem_nil
  encodes := fun _ hr => absurd hr List.not_mem_nil
  columns := fun _ hr => absurd hr List.not_mem_nil
  embedded := fun _ hr => absurd hr List.not_mem_nil
  embeddedRefs := fun _ _ h => absurd h (by simp [Db.empty])
  overrideRefs := fun _ _ h => absurd h (by simp [Db.empty])

/-! ### Growing dimension tables -/

/-- The dimension tables only grow. -/
structure NamesGrow (db db' : Db) : Prop where
  customers : db.customers.Extends db'.customers
  sites : db.sites.Extends db'.sites
  robots : db.robots.Extends db'.robots
  sources : db.sources.Extends db'.sources

theorem NamesGrow.refl (db : Db) : NamesGrow db db :=
  ⟨Table.Extends.refl _, Table.Extends.refl _, Table.Extends.refl _, Table.Extends.refl _⟩

theorem NamesGrow.of_eq {db db' : Db} (hcustomers : db'.customers = db.customers) (hsites : db'.sites = db.sites)
    (hrobots : db'.robots = db.robots) (hsources : db'.sources = db.sources) : NamesGrow db db' where
  customers := hcustomers ▸ Table.Extends.refl _
  sites := hsites ▸ Table.Extends.refl _
  robots := hrobots ▸ Table.Extends.refl _
  sources := hsources ▸ Table.Extends.refl _

theorem NamesGrow.trans {a b c : Db} (h : NamesGrow a b) (h' : NamesGrow b c) : NamesGrow a c :=
  ⟨h.customers.trans h'.customers, h.sites.trans h'.sites, h.robots.trans h'.robots, h.sources.trans h'.sources⟩

/-- The dimension tables only grew, by names that bind. -/
structure DimsGrow (db db' : Db) : Prop where
  customers : db.customers.Extends db'.customers
  sites : db.sites.Extends db'.sites
  robots : db.robots.Extends db'.robots
  sources : db.sources.Extends db'.sources
  customerBound : Lookup.customer.Bound db → Lookup.customer.Bound db'
  siteBound : Lookup.site.Bound db → Lookup.site.Bound db'
  robotBound : Lookup.robot.Bound db → Lookup.robot.Bound db'
  sourceBound : Lookup.source.Bound db → Lookup.source.Bound db'

theorem DimsGrow.names {db db' : Db} (h : DimsGrow db db') : NamesGrow db db' := ⟨h.customers, h.sites, h.robots, h.sources⟩

theorem DimsGrow.refl (db : Db) : DimsGrow db db :=
  ⟨Table.Extends.refl _, Table.Extends.refl _, Table.Extends.refl _, Table.Extends.refl _, id, id, id, id⟩

theorem DimsGrow.trans {a b c : Db} (h : DimsGrow a b) (h' : DimsGrow b c) : DimsGrow a c where
  customers := h.customers.trans h'.customers
  sites := h.sites.trans h'.sites
  robots := h.robots.trans h'.robots
  sources := h.sources.trans h'.sources
  customerBound hb := h'.customerBound (h.customerBound hb)
  siteBound hb := h'.siteBound (h.siteBound hb)
  robotBound hb := h'.robotBound (h.robotBound hb)
  sourceBound hb := h'.sourceBound (h.sourceBound hb)

theorem DimsGrow.of_eq {db db' : Db} (h1 : db'.customers = db.customers) (h2 : db'.sites = db.sites)
    (h3 : db'.robots = db.robots) (h4 : db'.sources = db.sources) : DimsGrow db db' where
  customers := by rw [h1]; exact Table.Extends.refl _
  sites := by rw [h2]; exact Table.Extends.refl _
  robots := by rw [h3]; exact Table.Extends.refl _
  sources := by rw [h4]; exact Table.Extends.refl _
  customerBound := by simp only [Lookup.Bound, Lookup.customer, h1]; exact id
  siteBound := by simp only [Lookup.Bound, Lookup.site, h2]; exact id
  robotBound := by simp only [Lookup.Bound, Lookup.robot, h3]; exact id
  sourceBound := by simp only [Lookup.Bound, Lookup.source, h4]; exact id

theorem dimsGrow_customer (db : Db) {name : PyStr} (hb : bindError (Lookup.customer.params name) = none) :
    DimsGrow db (Lookup.customer.resolved name db) :=
  { DimsGrow.refl db with
    customers := Lookup.customer.extends_resolved name db
    customerBound := fun h => bound_resolved h hb }

theorem dimsGrow_site (db : Db) {key : ℕ × PyStr} (hb : bindError (Lookup.site.params key) = none) :
    DimsGrow db (Lookup.site.resolved key db) :=
  { DimsGrow.refl db with
    sites := Lookup.site.extends_resolved key db
    siteBound := fun h => bound_resolved h hb }

theorem dimsGrow_robot (db : Db) {key : ℕ × PyStr} (hb : bindError (Lookup.robot.params key) = none) :
    DimsGrow db (Lookup.robot.resolved key db) :=
  { DimsGrow.refl db with
    robots := Lookup.robot.extends_resolved key db
    robotBound := fun h => bound_resolved h hb }

theorem dimsGrow_source (db : Db) {name : PyStr} (hb : bindError (Lookup.source.params name) = none) :
    DimsGrow db (Lookup.source.resolved name db) :=
  { DimsGrow.refl db with
    sources := Lookup.source.extends_resolved name db
    sourceBound := fun h => bound_resolved h hb }

theorem references_of_extends {κ ρ : Type} {t t' : Table κ ρ} (h : t.Extends t') {i : ℕ}
    (hi : Db.references t i = true) : Db.references t' i = true :=
  isSome_get_of_extends h hi

theorem idsPresent_of_namesGrow {db db' : Db} (h : NamesGrow db db') {ids : Ids} (hi : idsPresent db ids = true) :
    idsPresent db' ids = true := by
  simp only [idsPresent, Bool.and_eq_true] at hi ⊢
  exact ⟨⟨⟨references_of_extends h.customers hi.1.1.1, references_of_extends h.sites hi.1.1.2⟩,
    references_of_extends h.robots hi.1.2⟩, references_of_extends h.sources hi.2⟩

/-- Dimension rows that are there keep their names. -/
theorem namesOf_of_namesGrow {db db' : Db} (h : NamesGrow db db') {key : FileKey}
    (hp : idsPresent db (keyIds key) = true) : db'.namesOf key = db.namesOf key := by
  have hkey : ∀ {κ : Type} [DecidableEq κ] {t t' : Table κ Unit} {i : ℕ}, t.Extends t' → Db.references t i = true →
      t'.keyOf i = t.keyOf i := by
    intro κ _ t t' i ht hi
    obtain ⟨r, hr⟩ := Option.isSome_iff_exists.mp hi
    rw [Table.keyOf, Table.keyOf, hr, ht.get hr]
  simp only [idsPresent, keyIds, Bool.and_eq_true] at hp
  rw [Db.namesOf, Db.namesOf, hkey h.customers hp.1.1.1, hkey h.sites hp.1.1.2, hkey h.robots hp.1.2,
    hkey h.sources hp.2]

/-! ### The frame rule -/

/-- **The frame rule.**  Tables grow, files may go with their tags, and every file that stays is unchanged. -/
theorem CatalogInv.frame {env : Env} {db db' : Db} (h : CatalogInv env db) (hd : DimsGrow db db')
    (ht : TopicsGrow db db') (hti : TopicsInv env db')
    (hfiles : ∀ r ∈ db'.files.rows, r ∈ db.files.rows)
    (hembedded : ∀ r ∈ db'.files.rows, ∀ k,
      db'.tagsEmbedded.lookup (r.id, k) = db.tagsEmbedded.lookup (r.id, k))
    (hembeddedRefs : ∀ i k, (db'.tagsEmbedded.lookup (i, k)).isSome → (db'.files.get i).isSome)
    (hoverrideRefs : ∀ i k, (db'.tagsOverride.lookup (i, k)).isSome → (db'.files.get i).isSome) :
    CatalogInv env db' where
  topics := hti
  customerBound := hd.customerBound h.customerBound
  siteBound := hd.siteBound h.siteBound
  robotBound := hd.robotBound h.robotBound
  sourceBound := hd.sourceBound h.sourceBound
  fileRefs r hr := idsPresent_of_namesGrow hd.names (h.fileRefs r (hfiles r hr))
  encodes r hr := (h.encodes r (hfiles r hr)).mono ht
  columns r hr := h.columns r (hfiles r hr)
  embedded r hr k v := by rw [hembedded r hr, h.embedded r (hfiles r hr)]
  embeddedRefs := hembeddedRefs
  overrideRefs := hoverrideRefs

/-- Growing only the dimension tables. -/
structure OnlyDims (db db' : Db) : Prop where
  grow : DimsGrow db db'
  only : ∃ c s r x, db' = { db with customers := c, sites := s, robots := r, sources := x }

theorem OnlyDims.refl (db : Db) : OnlyDims db db := ⟨DimsGrow.refl db, _, _, _, _, rfl⟩

theorem OnlyDims.trans {a b c : Db} (h : OnlyDims a b) (h' : OnlyDims b c) : OnlyDims a c := by
  obtain ⟨g, c1, s1, r1, x1, rfl⟩ := h
  obtain ⟨g', c2, s2, r2, x2, rfl⟩ := h'
  exact ⟨g.trans g', _, _, _, _, rfl⟩

theorem TopicsInv.of_eq {env : Env} {db db' : Db} (h : TopicsInv env db)
    (h1 : db'.topicNames = db.topicNames) (h2 : db'.schemas = db.schemas)
    (h3 : db'.topicSets = db.topicSets) (h4 : db'.topicSetMembers = db.topicSetMembers) :
    TopicsInv env db' where
  topicBound := by
    have := h.topicBound
    simp only [Lookup.Bound, Lookup.topic] at this ⊢
    rwa [h1]
  schemaBound := by
    have := h.schemaBound
    simp only [Lookup.Bound, Lookup.schema] at this ⊢
    rwa [h2]
  memberRefs := by rw [h1, h2, h3, h4]; exact h.memberRefs
  fingerprints := by
    have := h.fingerprints
    simp only [Db.selectMembers] at this ⊢
    rwa [h3, h4]

theorem TopicsGrow.of_eq {db db' : Db} (h1 : db'.topicNames = db.topicNames) (h2 : db'.schemas = db.schemas)
    (h3 : db'.topicSets = db.topicSets) (h4 : db'.topicSetMembers = db.topicSetMembers) :
    TopicsGrow db db' where
  topicNames := by rw [h1]; exact Table.Extends.refl _
  schemas := by rw [h2]; exact Table.Extends.refl _
  topicSets := by rw [h3]; exact Table.Extends.refl _
  members s _ := by simp only [Db.selectMembers, h4]

section Changes

variable {env : Env} {db db' : Db}

theorem CatalogInv.onlyDims (h : CatalogInv env db) (ho : OnlyDims db db') : CatalogInv env db' := by
  obtain ⟨hg, c, s, r, x, rfl⟩ := ho
  exact h.frame hg (TopicsGrow.of_eq rfl rfl rfl rfl) (h.topics.of_eq rfl rfl rfl rfl) (fun _ hr => hr)
    (fun _ _ _ => rfl) h.embeddedRefs h.overrideRefs

/-- Whether a statement deletes the row with this id. -/
def goes (p : Row FileKey FileCols → Bool) (db : Db) (i : ℕ) : Bool :=
  db.files.rows.any fun r => r.id = i ∧ p r

theorem goes_of_get {p : Row FileKey FileCols → Bool} {i : ℕ} {r : Row FileKey FileCols}
    (hr : db.files.get i = some r) : goes p db i = p r := by
  obtain ⟨hmem, rfl⟩ := Table.get_eq_some_iff.mp hr
  rw [goes, Bool.eq_iff_iff, List.any_eq_true]
  constructor
  · rintro ⟨r', hr', hp⟩
    simp only [decide_eq_true_eq] at hp
    rw [← db.files.eq_of_id_eq hr' hmem hp.1]
    exact hp.2
  · intro hp
    exact ⟨r, hmem, by simp [hp]⟩

theorem goes_of_get_none {p : Row FileKey FileCols → Bool} {i : ℕ} (h : db.files.get i = none) :
    goes p db i = false := by
  rw [goes, List.any_eq_false]
  intro r hr
  have := Table.get_eq_none_iff.mp h r hr
  simp [this]

theorem get_deleteFiles (p : Row FileKey FileCols → Bool) (db : Db) (i : ℕ) :
    (db.deleteFiles p).files.get i = if goes p db i then none else db.files.get i := by
  show (db.files.filter _).get i = _
  rw [Table.get_filter]
  rcases hg : db.files.get i with _ | r
  · rw [goes_of_get_none hg]
    rfl
  · rw [goes_of_get hg]
    cases hp : p r <;> simp [hp]

theorem lookup_override_deleteFiles (p : Row FileKey FileCols → Bool) (db : Db) (i : ℕ) (k : PyStr) :
    (db.deleteFiles p).tagsOverride.lookup (i, k) =
      if goes p db i then none else db.tagsOverride.lookup (i, k) := by
  show (keep _ db.tagsOverride).lookup (i, k) = _
  rw [lookup_keep]
  show (if (!goes p db i) = true then _ else _) = _
  cases goes p db i <;> rfl

theorem lookup_embedded_deleteFiles (p : Row FileKey FileCols → Bool) (db : Db) (i : ℕ) (k : PyStr) :
    (db.deleteFiles p).tagsEmbedded.lookup (i, k) =
      if goes p db i then none else db.tagsEmbedded.lookup (i, k) := by
  show (keep _ db.tagsEmbedded).lookup (i, k) = _
  rw [lookup_keep]
  show (if (!goes p db i) = true then _ else _) = _
  cases goes p db i <;> rfl

theorem CatalogInv.deleteFiles (h : CatalogInv env db) (p : Row FileKey FileCols → Bool) :
    CatalogInv env (db.deleteFiles p) := by
  have hsub : ∀ r ∈ (db.deleteFiles p).files.rows, r ∈ db.files.rows := fun r hr => (Table.mem_filter.mp hr).1
  refine h.frame (DimsGrow.of_eq rfl rfl rfl rfl) (TopicsGrow.of_eq rfl rfl rfl rfl) (h.topics.of_eq rfl rfl rfl rfl) hsub
    ?_ ?_ ?_
  · intro r hr k
    have hp : p r = false := by simpa using (Table.mem_filter.mp hr).2
    rw [lookup_embedded_deleteFiles, goes_of_get (Table.get_of_mem (hsub r hr)), hp]
    rfl
  · intro i k hk
    rw [lookup_embedded_deleteFiles] at hk
    rw [get_deleteFiles]
    cases hg : goes p db i with
    | true => rw [hg] at hk; cases hk
    | false => rw [hg] at hk; exact h.embeddedRefs i k hk
  · intro i k hk
    rw [lookup_override_deleteFiles] at hk
    rw [get_deleteFiles]
    cases hg : goes p db i with
    | true => rw [hg] at hk; cases hk
    | false => rw [hg] at hk; exact h.overrideRefs i k hk

/-- Changes outside the tables the invariant is about. -/
theorem CatalogInv.failures (h : CatalogInv env db) (failures : Rows PyStr (ℤ × PyStr))
    (build : Option BuildRow) :
    CatalogInv env { db with catalogFailures := failures, buildMetadata := build } :=
  h.frame (DimsGrow.of_eq rfl rfl rfl rfl) (TopicsGrow.of_eq rfl rfl rfl rfl) (h.topics.of_eq rfl rfl rfl rfl) (fun _ hr => hr)
    (fun _ _ _ => rfl) h.embeddedRefs h.overrideRefs

/-- Overrides of files that are there. -/
theorem CatalogInv.overrides (h : CatalogInv env db) {overrides : Rows (ℕ × PyStr) (Option PyStr × ℤ)}
    (hrefs : ∀ i k, (overrides.lookup (i, k)).isSome → (db.files.get i).isSome) :
    CatalogInv env { db with tagsOverride := overrides } :=
  h.frame (DimsGrow.of_eq rfl rfl rfl rfl) (TopicsGrow.of_eq rfl rfl rfl rfl) (h.topics.of_eq rfl rfl rfl rfl) (fun _ hr => hr)
    (fun _ _ _ => rfl) h.embeddedRefs hrefs

theorem get_upsert_isSome {κ ρ : Type} [DecidableEq κ] {t : Table κ ρ} {k : κ} {v : ρ} {i : ℕ}
    (h : (t.get i).isSome) : ((t.upsert k v).get i).isSome := by
  rw [Table.get_upsert]
  split
  · rfl
  · exact h

/-- **A committed file transaction keeps the invariant.** -/
theorem CatalogInv.wrote (h : CatalogInv env db) {ids : Ids} {written : Written}
    (hids : idsPresent db ids = true) (hw : Wrote env (ids.key written.dims) written db db') :
    CatalogInv env db' := by
  obtain ⟨now, setId, blob, hfiles, hencodes⟩ := hw.files
  have hmem : ∀ {r}, r ∈ db'.files.rows ↔ (r ∈ db.files.rows ∧ r.key ≠ ids.key written.dims) ∨
      r = ⟨db.files.upsertId (ids.key written.dims), ids.key written.dims,
        storedCols written now setId blob⟩ := by
    intro r
    rw [hfiles]
    exact Table.mem_upsert
  have hdims : DimsGrow db db' := DimsGrow.of_eq hw.customers hw.sites hw.robots hw.sources
  have hget : ∀ i, (db.files.get i).isSome → (db'.files.get i).isSome := by
    intro i hi
    rw [hfiles]
    exact get_upsert_isSome hi
  have hembedded : ∀ i k, db'.tagsEmbedded.lookup (i, k) =
      if i = db.files.upsertId (ids.key written.dims) then none else db.tagsEmbedded.lookup (i, k) := by
    intro i k
    rw [hw.tagsEmbedded, lookup_keep]
    by_cases hi : i = db.files.upsertId (ids.key written.dims) <;> simp [hi]
  exact
    { topics := hw.topics
      customerBound := hdims.customerBound h.customerBound
      siteBound := hdims.siteBound h.siteBound
      robotBound := hdims.robotBound h.robotBound
      sourceBound := hdims.sourceBound h.sourceBound
      fileRefs := by
        intro r hr
        rcases hmem.mp hr with ⟨hr, _⟩ | rfl
        · exact idsPresent_of_namesGrow hdims.names (h.fileRefs r hr)
        · exact idsPresent_of_namesGrow hdims.names hids
      encodes := by
        intro r hr
        rcases hmem.mp hr with ⟨hr, _⟩ | rfl
        · exact (h.encodes r hr).mono hw.grow
        · exact hencodes
      columns := by
        intro r hr
        rcases hmem.mp hr with ⟨hr, _⟩ | rfl
        · exact h.columns r hr
        · rfl
      embedded := by
        intro r hr k v
        rw [hembedded]
        rcases hmem.mp hr with ⟨hr, hne⟩ | rfl
        · have hid : r.id ≠ db.files.upsertId (ids.key written.dims) := by
            intro hid
            have hnew := (Table.get_upsert db.files (ids.key written.dims)
              (storedCols written now setId blob) r.id)
            rw [if_pos hid] at hnew
            have hold := Table.get_of_mem (t := db'.files) (hmem.mpr (Or.inl ⟨hr, hne⟩))
            rw [hfiles, hnew] at hold
            exact hne (congrArg Row.key (Option.some.inj hold)).symm
          rw [if_neg hid]
          exact h.embedded r hr k v
        · rw [if_pos rfl, deriveTags_eq_nil]
          simp
      embeddedRefs := by
        intro i k hk
        rw [hembedded] at hk
        split at hk
        · cases hk
        · exact hget i (h.embeddedRefs i k hk)
      overrideRefs := by
        intro i k hk
        rw [hw.tagsOverride] at hk
        exact hget i (h.overrideRefs i k hk) }

end Changes

end McapCatalog.Builder
