import McapCatalog.Acts

/-!
# The row of an identity

The identity of a recording is its six dimension names; the `files` table is keyed by four ids, the date and the
file name.

* `fileKey` — the key the lookup tables give to the names, if all four rows are there;
* `fileKey_injective`, `fileKey_mono` — different names have different keys, and keys stay while tables grow;
* `rowOf` — the `files` row of an identity, and `rowOf_onlyDims`: new dimension rows do not bring one to light;
* `namesOf_fileKey` — reading the names back through the joins gives the identity.
-/

namespace McapCatalog.Builder

open McapCatalog.PyText McapCatalog.KeyParse McapCatalog.Tables McapCatalog.RowidTable McapCatalog.KeyedRows
open McapCatalog.Connection McapCatalog.CatalogDb McapCatalog.Reconcile

/-- The key of an identity, from the tables. -/
def fileKey (db : Db) (dims : Dims) : Option FileKey := compositeIds (Caches.of db) dims

/-- The row of an identity. -/
def rowOf (db : Db) (dims : Dims) : Option (Row FileKey FileCols) := (fileKey db dims).bind db.files.find

variable {env : Env} {db db' : Db} {dims dims' : Dims} {key : FileKey}

theorem fileKey_eq_some_iff : fileKey db dims = some key ↔
    db.customers.idOf dims.customer = some key.customerId ∧
      db.sites.idOf (key.customerId, dims.site) = some key.siteId ∧
      db.robots.idOf (key.siteId, dims.robot) = some key.robotId ∧
      db.sources.idOf dims.source = some key.sourceId ∧
      key.date = dims.date ∧ key.filename = dims.filename := by
  rw [fileKey, compositeIds, cachedIds]
  simp only [Caches.of, Option.bind_eq_bind, Option.map_eq_some_iff, Option.bind_eq_some_iff]
  constructor
  · rintro ⟨ids, ⟨c, hc, s, hs, r, hr, x, hx, hids⟩, rfl⟩
    cases hids
    exact ⟨hc, hs, hr, hx, rfl, rfl⟩
  · rintro ⟨hc, hs, hr, hx, hd, hf⟩
    refine ⟨keyIds key, ⟨_, hc, _, hs, _, hr, _, hx, rfl⟩, ?_⟩
    rw [Ids.key, ← hd, ← hf]
    rfl

/-- **Different identities have different keys.** -/
theorem fileKey_injective (h : fileKey db dims = some key) (h' : fileKey db dims' = some key) : dims = dims' := by
  obtain ⟨hc, hs, hr, hx, hd, hf⟩ := fileKey_eq_some_iff.mp h
  obtain ⟨hc', hs', hr', hx', hd', hf'⟩ := fileKey_eq_some_iff.mp h'
  have h1 := Table.idOf_injective hc hc'
  have h2 := congrArg Prod.snd (Table.idOf_injective hs hs')
  have h3 := congrArg Prod.snd (Table.idOf_injective hr hr')
  have h4 := Table.idOf_injective hx hx'
  cases dims
  cases dims'
  simp only at h1 h2 h3 h4 hd hf hd' hf'
  rw [h1, h2, h3, h4, ← hd, ← hf, hd', hf']

/-- **A key stays while the tables grow.** -/
theorem fileKey_mono (hg : NamesGrow db db') (h : fileKey db dims = some key) : fileKey db' dims = some key := by
  obtain ⟨hc, hs, hr, hx, hd, hf⟩ := fileKey_eq_some_iff.mp h
  exact fileKey_eq_some_iff.mpr
    ⟨hg.customers.idOf hc, hg.sites.idOf hs, hg.robots.idOf hr, hg.sources.idOf hx, hd, hf⟩

/-- A key whose ids were all there before was the identity's key before. -/
theorem fileKey_of_grow (hg : DimsGrow db db') (h : fileKey db' dims = some key)
    (hp : idsPresent db (keyIds key) = true) : fileKey db dims = some key := by
  have hback : ∀ {κ : Type} [DecidableEq κ] {t t' : Table κ Unit} {k : κ} {i : ℕ}, t.Extends t' →
      t'.idOf k = some i → Db.references t i = true → t.idOf k = some i := by
    intro κ _ t t' k i hext hi href
    obtain ⟨r, hr⟩ := Option.isSome_iff_exists.mp href
    have hold : t.keyOf i = some r.key := by rw [Table.keyOf, hr]; rfl
    have hnew := hext.keyOf hold
    rw [Table.idOf_eq_some_iff.mp hi] at hnew
    rw [Table.idOf_eq_some_iff, hold, hnew]
  obtain ⟨hc, hs, hr, hx, hd, hf⟩ := fileKey_eq_some_iff.mp h
  simp only [idsPresent, Bool.and_eq_true, keyIds] at hp
  exact fileKey_eq_some_iff.mpr ⟨hback hg.customers hc hp.1.1.1, hback hg.sites hs hp.1.1.2,
    hback hg.robots hr hp.1.2, hback hg.sources hx hp.2, hd, hf⟩

theorem fileKey_congr (h1 : db'.customers = db.customers) (h2 : db'.sites = db.sites)
    (h3 : db'.robots = db.robots) (h4 : db'.sources = db.sources) (dims : Dims) :
    fileKey db' dims = fileKey db dims := by
  rw [fileKey, fileKey, compositeIds, compositeIds, cachedIds, cachedIds]
  simp only [Caches.of, h1, h2, h3, h4]

theorem rowOf_eq_some_iff {r : Row FileKey FileCols} :
    rowOf db dims = some r ↔ r ∈ db.files.rows ∧ fileKey db dims = some r.key := by
  rw [rowOf, Option.bind_eq_some_iff]
  constructor
  · rintro ⟨key, hkey, hfind⟩
    obtain ⟨hmem, rfl⟩ := Table.find_eq_some_iff.mp hfind
    exact ⟨hmem, hkey⟩
  · rintro ⟨hmem, hkey⟩
    exact ⟨r.key, hkey, Table.find_of_mem hmem⟩

theorem rowOf_of_fileKey (h : fileKey db dims = some key) : rowOf db dims = db.files.find key := by
  rw [rowOf, h]
  rfl

/-- **New dimension rows bring no row to light**: every row's ids were there before. -/
theorem rowOf_onlyDims (hinv : CatalogInv env db) (ho : OnlyDims db db') (dims : Dims) :
    rowOf db' dims = rowOf db dims := by
  obtain ⟨hg, c, s, r, x, rfl⟩ := ho
  apply Option.ext
  intro r₀
  constructor
  · intro h
    obtain ⟨hmem, hkey⟩ := rowOf_eq_some_iff.mp h
    exact rowOf_eq_some_iff.mpr ⟨hmem, fileKey_of_grow hg hkey (hinv.fileRefs r₀ hmem)⟩
  · intro h
    obtain ⟨hmem, hkey⟩ := rowOf_eq_some_iff.mp h
    exact rowOf_eq_some_iff.mpr ⟨hmem, fileKey_mono hg.names hkey⟩

/-- **The joins read the identity back.** -/
theorem namesOf_fileKey (h : fileKey db dims = some key) : db.namesOf key = some dims := by
  obtain ⟨hc, hs, hr, hx, hd, hf⟩ := fileKey_eq_some_iff.mp h
  rw [Db.namesOf, Table.idOf_eq_some_iff.mp hc, Table.idOf_eq_some_iff.mp hs, Table.idOf_eq_some_iff.mp hr,
    Table.idOf_eq_some_iff.mp hx, hd, hf]

end McapCatalog.Builder
