import McapCatalog.Coherence
import McapCatalog.Overrides

/-!
# Three ways to find a file

A file is found by its six names in three ways: `lookup_file_id` joins the tables, `_composite_ids` reads the caches, and
the builder resolves the ids and selects by them.  No foreign key of `files` says that the site of a row belongs to its
customer or its robot to its site, so that the three agree rests on how every row was written.

* `Hierarchical` — the row's site is one of its customer's, and its robot one of its site's;
* `Placed`, `Seated` — every row has the key of the names it was written for; the dimension caches are those of the tables,
  and what is committed has the same dimension tables;
* `transacts_seated`, `passes_seated` — every statement keeps that, as long as `_resolve_ids` returns: a topic cache that a
  failed reload leaves stale does no harm;
* `lookups_agree` — **along such runs the three lookups agree**, for all names and after any failures.
-/

namespace McapCatalog.Builder

open McapCatalog.PyText McapCatalog.PyError McapCatalog.KeyParse McapCatalog.Storage
open McapCatalog.Tables McapCatalog.RowidTable McapCatalog.KeyedRows
open McapCatalog.Connection McapCatalog.CatalogDb McapCatalog.Reconcile McapCatalog.Worker McapCatalog.Runs
open McapCatalog.SurvivingState McapCatalog.SurvivingState.Comp
open Relation

/-- The site of the key belongs to its customer, and its robot to its site. -/
def Hierarchical (db : Db) (key : FileKey) : Prop :=
  (∃ name, db.sites.keyOf key.siteId = some (key.customerId, name)) ∧
    ∃ name, db.robots.keyOf key.robotId = some (key.siteId, name)

/-! ### The invariant -/

/-- Every file is under the key of the names it was written for, and these bind. -/
structure Placed (db : Db) : Prop where
  bound : DimsBound db
  named : ∀ r ∈ db.files.rows, fileKey db r.val.origin.dims = some r.key
  dated : ∀ r ∈ db.files.rows, bindError (compositeParams r.val.origin.dims) = none

/-- Two databases have the same dimension tables. -/
structure SameDims (db db' : Db) : Prop where
  customers : db'.customers = db.customers
  sites : db'.sites = db.sites
  robots : db'.robots = db.robots
  sources : db'.sources = db.sources

theorem SameDims.refl (db : Db) : SameDims db db := ⟨rfl, rfl, rfl, rfl⟩

/-- The dimension caches are the dictionaries of the tables. -/
structure DimsExact (db : Db) (caches : Caches) : Prop where
  customer : caches.customer = db.customers.idOf
  site : caches.site = db.sites.idOf
  robot : caches.robot = db.robots.idOf
  source : caches.source = db.sources.idOf

/-- What is committed and what the connection sees are placed and have the same dimension tables, the dimension caches are
theirs, and the identities in `K` have their keys. -/
structure Seated (K : Set (Dims × FileKey)) (db view : Db) (caches : Caches) : Prop where
  exact : DimsExact view caches
  same : SameDims view db
  committed : Placed db
  working : Placed view
  keyed : ∀ p ∈ K, fileKey view p.1 = some p.2

section Invariant

variable {db db' view : Db} {caches : Caches} {dims : Dims} {key : FileKey} {K : Set (Dims × FileKey)}

theorem SameDims.fileKey (h : SameDims db db') (dims : Dims) : fileKey db' dims = fileKey db dims :=
  fileKey_congr h.customers h.sites h.robots h.sources dims

theorem SameDims.dimsGrow (h : SameDims db db') : DimsGrow db db' :=
  .of_eq h.customers h.sites h.robots h.sources

theorem placed_empty : Placed Db.empty where
  bound := (catalogInv_empty oneTopicEnv).dimsBound
  named _ hr := absurd hr List.not_mem_nil
  dated _ hr := absurd hr List.not_mem_nil

/-- A change of the rows that brings in neither keys nor names. -/
theorem Placed.of_rows (h : Placed db) (hsame : SameDims db db')
    (hrows : ∀ r' ∈ db'.files.rows, ∃ r ∈ db.files.rows, r'.key = r.key ∧ r'.val.origin = r.val.origin) : Placed db' where
  bound := h.bound.grow hsame.dimsGrow
  named r' hr' := by
    obtain ⟨r, hr, hkey, horigin⟩ := hrows r' hr'
    rw [horigin, hkey, hsame.fileKey]
    exact h.named r hr
  dated r' hr' := by
    obtain ⟨r, hr, _, horigin⟩ := hrows r' hr'
    rw [horigin]
    exact h.dated r hr

/-- **A row written under the key of its names.** -/
theorem Placed.upsert (h : Placed db) {cols : FileCols} (hkey : fileKey db cols.origin.dims = some key)
    (hbind : bindError (compositeParams cols.origin.dims) = none) :
    Placed { db with files := db.files.upsert key cols } where
  bound := h.bound.grow (.of_eq rfl rfl rfl rfl)
  named r hr := by
    show fileKey db r.val.origin.dims = some r.key
    cases Table.mem_upsert.mp hr with
    | inl hold => exact h.named r hold.1
    | inr hnew =>
        rw [hnew]
        exact hkey
  dated r hr := by
    cases Table.mem_upsert.mp hr with
    | inl hold => exact h.dated r hold.1
    | inr hnew =>
        rw [hnew]
        exact hbind

theorem Placed.onlyDims (h : Placed db) (ho : OnlyDims db db') : Placed db' := by
  obtain ⟨hgrow, _, _, _, _, rfl⟩ := ho
  exact ⟨h.bound.grow hgrow, fun r hr => fileKey_mono hgrow.names (h.named r hr), h.dated⟩

/-- A change of the view that leaves the dimension tables alone. -/
theorem Seated.change {view' : Db} (h : Seated K db view caches) (hsame : SameDims view view') (hplaced : Placed view') :
    Seated K db view' caches where
  exact :=
    { customer := h.exact.customer.trans (by rw [hsame.customers])
      site := h.exact.site.trans (by rw [hsame.sites])
      robot := h.exact.robot.trans (by rw [hsame.robots])
      source := h.exact.source.trans (by rw [hsame.sources]) }
  same :=
    { customers := h.same.customers.trans hsame.customers.symm
      sites := h.same.sites.trans hsame.sites.symm
      robots := h.same.robots.trans hsame.robots.symm
      sources := h.same.sources.trans hsame.sources.symm }
  committed := h.committed
  working := hplaced
  keyed p hp := (hsame.fileKey p.1).trans (h.keyed p hp)

/-- A change of the view that brings in neither keys nor names. -/
theorem Seated.setWorking {view' : Db} (h : Seated K db view caches) (hsame : SameDims view view')
    (hrows : ∀ r' ∈ view'.files.rows, ∃ r ∈ view.files.rows, r'.key = r.key ∧ r'.val.origin = r.val.origin) :
    Seated K db view' caches :=
  h.change hsame (h.working.of_rows hsame hrows)

/-- The same rows. -/
theorem Seated.sameRows {view' : Db} (h : Seated K db view caches) (hsame : SameDims view view')
    (hfiles : view'.files = view.files) : Seated K db view' caches :=
  h.setWorking hsame fun r hr => ⟨r, by rw [← hfiles]; exact hr, rfl, rfl⟩

/-- **What every statement keeps** that leaves the lookup tables alone and writes no file. -/
theorem tame_seated (K : Set (Dims × FileKey)) : Tame (Seated K) where
  commit h := ⟨h.exact, SameDims.refl _, h.working, h.working, h.keyed⟩
  rollBack db view caches h :=
    { exact :=
        { customer := h.exact.customer.trans (by rw [h.same.customers])
          site := h.exact.site.trans (by rw [h.same.sites])
          robot := h.exact.robot.trans (by rw [h.same.robots])
          source := h.exact.source.trans (by rw [h.same.sources]) }
      same := SameDims.refl _
      committed := h.committed
      working := h.committed
      keyed := fun p hp => (h.same.fileKey p.1).trans (h.keyed p hp) }
  delete p _ _ _ h := h.setWorking ⟨rfl, rfl, rfl, rfl⟩ fun r hr => ⟨r, (Table.mem_filter.mp hr).1, rfl, rfl⟩
  failures _ _ _ _ _ h := h.sameRows ⟨rfl, rfl, rfl, rfl⟩ rfl
  override hrun h := by
    rw [Db.upsertOverride] at hrun
    split at hrun
    · cases hrun
      exact h.sameRows ⟨rfl, rfl, rfl, rfl⟩ rfl
    · cases hrun
  eraseOverride _ _ _ _ h := h.sameRows ⟨rfl, rfl, rfl, rfl⟩ rfl

/-- **The per-file transaction** writes under the key of its names. -/
theorem transacts_seated {written : Written} (hkey : (written.dims, key) ∈ K) : Transacts (Seated K) key written where
  rollBack := (tame_seated K).rollBack
  topical h ht := h.sameRows ⟨ht.customers, ht.sites, ht.robots, ht.sources⟩ ht.files
  upsert hbind hrun h := by
    rw [Db.upsertFile] at hrun
    split at hrun
    · cases hrun
      exact h.change ⟨rfl, rfl, rfl, rfl⟩ (h.working.upsert (h.keyed _ hkey) (bindError_compositeParams hbind))
    · cases hrun
  hasError i n _ view _ h := by
    refine h.setWorking ⟨rfl, rfl, rfl, rfl⟩ fun r' hr' => ?_
    cases Table.mem_setVal.mp hr' with
    | inl hold => exact ⟨r', hold.1, rfl, rfl⟩
    | inr hnew =>
        obtain ⟨r, hr, _, heq⟩ := hnew
        exact ⟨r, hr, by rw [heq], by rw [heq]⟩
  remember _ _ _ h :=
    ⟨⟨h.exact.customer, h.exact.site, h.exact.robot, h.exact.source⟩, h.same, h.committed, h.working, h.keyed⟩

theorem seated_opened (h : Seated K db view caches) : Seated K db db (Caches.of db) :=
  ⟨⟨rfl, rfl, rfl, rfl⟩, SameDims.refl db, h.committed, h.committed, ((tame_seated K).rollBack _ _ _ h).keyed⟩

theorem seated_empty : Seated ∅ Db.empty Db.empty (Caches.of Db.empty) :=
  ⟨⟨rfl, rfl, rfl, rfl⟩, SameDims.refl _, placed_empty, placed_empty, fun _ hp => absurd hp (Set.notMem_empty _)⟩

end Invariant

/-! ### The two calls -/

section Calls

variable {env : Env} {w w' : World}

theorem DimsExact.onDims (h : DimsExact w.conn.working w.caches) : onDims w w.conn.working = w := by
  rcases w with ⟨conn, ⟨c, s, r, x, t, sc, ts⟩, clock⟩
  obtain ⟨h1, h2, h3, h4⟩ := h
  simp only at h1 h2 h3 h4
  rw [h1, h2, h3, h4]
  rfl

/-- **`_resolve_ids` that returns** has committed the names it brought in, and gives the identity its key. -/
theorem Seated.ran_resolveIds (h : HoldsAt (Seated ∅) w) {dims : Dims} {ids : Ids}
    (hrun : resolveIds dims w = (.ok ids, w')) :
    OnlyDims w.conn.working w'.conn.working ∧ w'.conn.committed = w'.conn.working ∧ HoldsAt (Seated ∅) w' ∧
      fileKey w'.conn.working dims = some (ids.key dims) := by
  have hcalm := calm_resolveIds dims w ids w' hrun
  have hexact : DimsExact (scripted w []).conn.working (scripted w []).caches := h.exact
  have hspec := resolveIds_onDims (w := scripted w []) rfl h.working.bound dims
  rw [show onDims (scripted w []) w.conn.working = scripted w [] from hexact.onDims] at hspec
  cases hbind : bindError (nameParams dims) with
  | some e =>
      rw [hbind] at hspec
      obtain ⟨db', herror, _⟩ := hspec
      rw [hcalm] at herror
      cases herror
  | none =>
      rw [hbind] at hspec
      obtain ⟨ids', db', hok, honly, hkey⟩ := hspec
      rw [hcalm] at hok
      obtain ⟨hids, hworld⟩ := Prod.ext_iff.mp hok
      cases Except.ok.inj hids
      have hplaced : Placed db' := h.working.onlyDims honly
      have hleft : OnlyDims w.conn.working (scripted w' []).conn.working ∧
          (scripted w' []).conn.committed = (scripted w' []).conn.working ∧ HoldsAt (Seated ∅) (scripted w' []) ∧
            fileKey (scripted w' []).conn.working dims = some (ids.key dims) := by
        rw [show scripted w' [] = (onDims (scripted w []) db').commitWorking from hworld]
        exact ⟨honly, rfl,
          ⟨⟨rfl, rfl, rfl, rfl⟩, SameDims.refl _, hplaced, hplaced, fun _ hp => absurd hp (Set.notMem_empty _)⟩, hkey⟩
      exact hleft

theorem Seated.resolveIds (h : HoldsAt (Seated ∅) w) {dims : Dims} {ids : Ids}
    (hrun : resolveIds dims w = (.ok ids, w')) :
    HoldsAt (Seated ∅) w' ∧ fileKey w'.conn.working dims = some (ids.key dims) :=
  (Seated.ran_resolveIds h hrun).2.2

/-- The reload of the caches: it raises, or leaves those of the connection's view. -/
theorem keeps_reload {α : Type} {I : Property} {lo : ℕ} {Q : α → Prop} (hroll : RollsBack I)
    (hload : ∀ {db view caches}, I db view caches → I db view (Caches.of view)) {m : Py α} (hm : Keeps I lo m Q) :
    Keeps I lo (do let caches ← loadCaches; change fun w => w.setCaches caches; m) Q := by
  intro w hw
  have hloaded := (keeps_loadCaches hroll).after hw
  rcases hrun : loadCaches w with ⟨r, w₁⟩
  rw [hrun] at hloaded
  cases r with
  | error e =>
      rw [bind_of_error hrun]
      exact hloaded
  | ok caches =>
      have hcalm := calm_loadCaches w caches w₁ hrun
      rw [loadCaches_quiet (quiet_scripted w)] at hcalm
      obtain ⟨hcaches, hworld⟩ := Prod.ext_iff.mp hcalm
      have hview : w₁.conn.working = w.conn.working := (congrArg (fun v => v.conn.working) hworld).symm
      rw [bind_of_ok hrun, bind_of_ok (change_apply _ _)]
      refine hm _ ⟨?_, hloaded.since⟩
      show I w₁.conn.committed w₁.conn.working caches
      rw [← Except.ok.inj hcaches, show (scripted w []).conn.working = w₁.conn.working from hview.symm]
      exact hload hloaded.inv

theorem Seated.reloaded {K : Set (Dims × FileKey)} {db view : Db} {caches : Caches} (h : Seated K db view caches) :
    Seated K db view (Caches.of view) :=
  ⟨⟨rfl, rfl, rfl, rfl⟩, h.same, h.committed, h.working, h.keyed⟩

/-- **`_write_file_row`**, whatever fails in it. -/
theorem keeps_writeFileRow_seated {K : Set (Dims × FileKey)} {lo : ℕ} {ids : Ids} {written : Written}
    (hkey : (written.dims, ids.key written.dims) ∈ K) :
    Keeps (Seated K) lo (writeFileRow env ids written) fun _ => True := by
  have hT := tame_seated K
  refine (keeps_withConn hT (keeps_transaction (transacts_seated hkey))).attempt.bind fun r _ => ?_
  cases r with
  | ok _ => exact keeps_pure trivial
  | error e =>
      exact keeps_reload hT.rollBack Seated.reloaded
        ((keeps_quarantineExisting hT _ _ _ _).bind fun _ _ => keeps_pure trivial)

/-- `_resolve_ids` returns, wherever it is called; nothing is asked of `_write_file_row`. -/
def resolving : Gate where
  ids dims w := ∃ ids w', resolveIds dims w = (.ok ids, w')
  write _ _ _ := True

/-- So does **the call that writes under the key of its names**. -/
theorem Seated.writeFileRow (h : HoldsAt (Seated ∅) w) {ids : Ids} {written : Written}
    (hkey : fileKey w.conn.working written.dims = some (ids.key written.dims)) :
    Leaves (HoldsAt (Seated ∅)) (writeFileRow env ids written) w := by
  have hkeyed : HoldsAt (Seated {(written.dims, ids.key written.dims)}) w :=
    ⟨h.exact, h.same, h.committed, h.working, fun p hp => by rw [Set.mem_singleton_iff.mp hp]; exact hkey⟩
  have hkeeps : Keeps (Seated {(written.dims, ids.key written.dims)}) 0 (Builder.writeFileRow env ids written) fun _ => True :=
    keeps_writeFileRow_seated (Set.mem_singleton _)
  have hleft := hkeeps.leaves hkeyed
  exact ⟨hleft.exact, hleft.same, hleft.committed, hleft.working, fun _ hp => absurd hp (Set.notMem_empty _)⟩

theorem passes_seated (env : Env) : Passes env (Seated ∅) resolving where
  tame := tame_seated ∅
  resolved h hrun := Seated.resolveIds h hrun
  unresolved _ hgate hrun := by
    obtain ⟨ids, w', hok⟩ := hgate
    rw [hrun] at hok
    cases hok
  write h hkey _ := Seated.writeFileRow h hkey

end Calls

/-! ### The three lookups -/

/-- `_resolve_ids`, then `SELECT id FROM files` by the composite key. -/
def selectComposite (dims : Dims) : Py (Option ℕ) := do
  let ids ← resolveIds dims
  query (compositeParams dims) fun db => db.files.idOf (ids.key dims)

/-- `lookup_file_id` returns the id. -/
def FoundByNames (dims : Dims) (i : ℕ) (w : World) : Prop := (lookupFileId dims (scripted w [])).1 = .ok (some i)

/-- `_composite_ids` gives the key of a row with the id. -/
def FoundByCaches (dims : Dims) (i : ℕ) (w : World) : Prop :=
  ∃ key, compositeIds w.caches dims = some key ∧ w.conn.working.files.idOf key = some i

/-- The builder finds the row with the id. -/
def FoundByIds (dims : Dims) (i : ℕ) (w : World) : Prop := (selectComposite dims (scripted w [])).1 = .ok (some i)

section Lookups

variable {db db' : Db} {dims : Dims} {i : ℕ} {w w' : World}

theorem Placed.hierarchical (h : Placed db) {r : Row FileKey FileCols} (hr : r ∈ db.files.rows) :
    Hierarchical db r.key := by
  obtain ⟨_, hsite, hrobot, _⟩ := fileKey_eq_some_iff.mp (h.named r hr)
  exact ⟨⟨_, Table.idOf_eq_some_iff.mp hsite⟩, ⟨_, Table.idOf_eq_some_iff.mp hrobot⟩⟩

/-- The names of a row are those it was written for. -/
theorem Placed.origin_of_names (h : Placed db) {r : Row FileKey FileCols} (hr : r ∈ db.files.rows)
    (hnames : db.namesOf r.key = some dims) : r.val.origin.dims = dims := by
  rw [namesOf_fileKey (h.named r hr)] at hnames
  exact Option.some.inj hnames

theorem Placed.eq_of_names (h : Placed db) {r r' : Row FileKey FileCols} (hr : r ∈ db.files.rows)
    (hr' : r' ∈ db.files.rows) (hnames : db.namesOf r.key = some dims) (hnames' : db.namesOf r'.key = some dims) :
    r = r' := by
  have hkey := h.named r hr
  have hkey' := h.named r' hr'
  rw [h.origin_of_names hr hnames] at hkey
  rw [h.origin_of_names hr' hnames', hkey] at hkey'
  exact db.files.eq_of_key_eq hr hr' (Option.some.inj hkey')

/-- The join finds the row of the identity. -/
theorem Placed.lookupFile (h : Placed db) (dims : Dims) : db.lookupFile dims = rowOf db dims := by
  apply Option.ext
  intro r
  rw [Runs.lookupFile_eq_some_iff, rowOf_eq_some_iff]
  constructor
  · intro hfirst
    obtain ⟨hr, hnames, _⟩ := hfirst
    rw [← h.origin_of_names hr hnames]
    exact ⟨hr, h.named r hr⟩
  · intro hrow
    obtain ⟨hr, hkey⟩ := hrow
    have hnames := namesOf_fileKey hkey
    refine ⟨hr, hnames, fun r' hr' hlt hnames' => ?_⟩
    rw [h.eq_of_names hr hr' hnames hnames'] at hlt
    exact lt_irrefl _ hlt

/-- New dimension rows bring no row of an identity to light. -/
theorem Placed.rowOf_onlyDims (h : Placed db) (ho : OnlyDims db db') (dims : Dims) : rowOf db' dims = rowOf db dims := by
  obtain ⟨hgrow, _, _, _, _, rfl⟩ := ho
  apply Option.ext
  intro r
  rw [rowOf_eq_some_iff, rowOf_eq_some_iff]
  refine and_congr_right fun hr => ⟨fun hkey => ?_, fileKey_mono hgrow.names⟩
  have horigin : r.val.origin.dims = dims := fileKey_injective (fileKey_mono hgrow.names (h.named r hr)) hkey
  rw [← horigin]
  exact h.named r hr

/-- The names of a row bind. -/
theorem DimsBound.names (h : DimsBound db) {k : FileKey} (hnames : db.namesOf k = some dims) :
    bindError (nameParams dims) = none := by
  have hstored : ∀ {κ : Type} [DecidableEq κ] {L : Lookup κ} {k : κ} {i : ℕ}, L.Bound db → (L.table db).keyOf i = some k →
      bindError (L.params k) = none := by
    intro κ _ L k i hbound hkey
    obtain ⟨q, hq, rfl⟩ := Option.map_eq_some_iff.mp hkey
    exact hbound q (Table.get_eq_some_iff.mp hq).1
  rw [Db.namesOf] at hnames
  split at hnames
  · rename_i customer site robot source hc hs hrobot hx
    cases hnames
    have hcustomer := hstored h.customers hc
    have hsite := hstored h.sites hs
    have hrobot := hstored h.robots hrobot
    have hsource := hstored h.sources hx
    simp only [Lookup.customer, Lookup.site, Lookup.robot, Lookup.source, bindError_single] at hcustomer hsite hrobot hsource
    simp only [nameParams, bindError_cons, hcustomer, hsite, hrobot, hsource, bindError_nil, Option.or_none]
  · cases hnames

/-- The names of an identity with a row bind. -/
theorem Placed.binds (h : Placed db) {r : Row FileKey FileCols} (hrow : rowOf db dims = some r) :
    bindError (nameParams dims) = none ∧ bindError (compositeParams dims) = none := by
  obtain ⟨hr, hkey⟩ := rowOf_eq_some_iff.mp hrow
  have horigin : r.val.origin.dims = dims := fileKey_injective (h.named r hr) hkey
  exact ⟨h.bound.names (namesOf_fileKey hkey), horigin ▸ h.dated r hr⟩

theorem bindError_dimsParams : bindError (dimsParams dims) = (bindError (nameParams dims)).or (bindError (compositeParams dims)) := by
  simp only [dimsParams, nameParams, compositeParams, bindError_cons, bindError_nil, Option.or_none, Option.or_assoc]

theorem foundByNames_iff (h : HoldsAt (Seated ∅) w) : FoundByNames dims i w ↔ ∃ r, rowOf w.conn.working dims = some r ∧ r.id = i := by
  rw [FoundByNames, lookupFileId]
  cases hbind : bindError (dimsParams dims) with
  | some e =>
      rw [query_unbound (quiet_scripted w) hbind]
      refine iff_of_false (fun hok => by cases hok) fun hrow => ?_
      obtain ⟨r, hrow, _⟩ := hrow
      obtain ⟨hnames, hcomposite⟩ := h.working.binds hrow
      rw [bindError_dimsParams, hnames, hcomposite] at hbind
      cases hbind
  | none =>
      rw [query_ok (quiet_scripted w) hbind]
      show Except.ok ((w.conn.working.lookupFile dims).map Row.id) = .ok (some i) ↔ _
      rw [h.working.lookupFile, Except.ok.injEq, Option.map_eq_some_iff]

/-- The caches give a row the key that the tables give it. -/
theorem DimsExact.compositeIds {caches : Caches} (h : DimsExact db caches) (dims : Dims) :
    compositeIds caches dims = fileKey db dims := by
  rw [fileKey, Reconcile.compositeIds, Reconcile.compositeIds, cachedIds, cachedIds]
  simp only [Caches.of, h.customer, h.site, h.robot, h.source]

theorem foundByCaches_iff (h : HoldsAt (Seated ∅) w) :
    FoundByCaches dims i w ↔ ∃ r, rowOf w.conn.working dims = some r ∧ r.id = i := by
  rw [FoundByCaches, h.exact.compositeIds]
  simp only [rowOf, Table.idOf, Option.map_eq_some_iff, Option.bind_eq_some_iff]
  grind

theorem foundByIds_iff (h : HoldsAt (Seated ∅) w) : FoundByIds dims i w ↔ ∃ r, rowOf w.conn.working dims = some r ∧ r.id = i := by
  have hexact : DimsExact (scripted w []).conn.working (scripted w []).caches := h.exact
  have hspec := resolveIds_onDims (w := scripted w []) rfl h.working.bound dims
  rw [show onDims (scripted w []) w.conn.working = scripted w [] from hexact.onDims] at hspec
  rw [FoundByIds, selectComposite]
  cases hnames : bindError (nameParams dims) with
  | some e =>
      rw [hnames] at hspec
      obtain ⟨db', herror, _⟩ := hspec
      rw [bind_of_error herror]
      refine iff_of_false (fun hok => by cases hok) fun hrow => ?_
      obtain ⟨r, hrow, _⟩ := hrow
      rw [(h.working.binds hrow).1] at hnames
      cases hnames
  | none =>
      rw [hnames] at hspec
      obtain ⟨ids, db', hok, honly, hkey⟩ := hspec
      have hquiet : (onDims (scripted w []) db').commitWorking.Quiet := rfl
      rw [bind_of_ok hok, ← h.working.rowOf_onlyDims honly, rowOf_of_fileKey hkey]
      cases hcomposite : bindError (compositeParams dims) with
      | some e =>
          rw [query_unbound hquiet hcomposite]
          refine iff_of_false (fun hok => by cases hok) fun hrow => ?_
          obtain ⟨r, hfind, _⟩ := hrow
          have hrow : rowOf w.conn.working dims = some r := by
            rw [← h.working.rowOf_onlyDims honly, rowOf_of_fileKey hkey]
            exact hfind
          rw [(h.working.binds hrow).2] at hcomposite
          cases hcomposite
      | none =>
          rw [query_ok hquiet hcomposite]
          show Except.ok (db'.files.idOf (ids.key dims)) = .ok (some i) ↔ _
          rw [Except.ok.injEq, Table.idOf, Option.map_eq_some_iff]

/-- `lookup_file_id` writes nothing, whatever fails. -/
theorem lookupFileId_leaves {script : List (Option Fault)} {found : Except PyErr (Option ℕ)}
    (hrun : lookupFileId dims (scripted w script) = (found, w')) :
    Untouched w.conn w'.conn ∧ (found.toOption.isSome → w'.conn.working = w.conn.working) := by
  have huntouched : Untouched w.conn w'.conn := (untouched_query hrun).1
  refine ⟨huntouched, fun hok => ?_⟩
  cases found with
  | error e => cases hok
  | ok answer => exact (query_of_ok hrun).2.1

end Lookups

/-- **The three lookups agree** in every state that operations reach in which `_resolve_ids` returns, whatever else fails.
Every row is in the hierarchy of its names and the only one with them; `lookup_file_id` finds a row by its names exactly
when the caches name its key, and exactly when the builder finds it by the ids it resolves; and `lookup_file_id` leaves
what is committed and, if it returns, what the connection sees. -/
theorem lookups_agree {env : Env} {w : World} (h : OperationRun env resolving w) :
    (∀ db, db = w.conn.committed ∨ db = w.conn.working →
      (∀ r ∈ db.files.rows, Hierarchical db r.key) ∧
        ∀ r ∈ db.files.rows, ∀ r' ∈ db.files.rows, ∀ dims,
          db.namesOf r.key = some dims → db.namesOf r'.key = some dims → r = r') ∧
      (∀ dims i, (FoundByNames dims i w ↔ FoundByCaches dims i w) ∧ (FoundByCaches dims i w ↔ FoundByIds dims i w)) ∧
        ∀ dims script found w', lookupFileId dims (scripted w script) = (found, w') →
          Untouched w.conn w'.conn ∧ (found.toOption.isSome → w'.conn.working = w.conn.working) := by
  have hseated := (passes_seated env).run seated_opened seated_empty h
  refine ⟨fun db hdb => ?_, fun dims i => ?_, fun dims script found w' hrun => lookupFileId_leaves hrun⟩
  · have hplaced : Placed db := by
      cases hdb with
      | inl hcommitted => rw [hcommitted]; exact hseated.committed
      | inr hworking => rw [hworking]; exact hseated.working
    exact ⟨fun r hr => hplaced.hierarchical hr, fun r hr r' hr' dims hnames hnames' =>
      hplaced.eq_of_names hr hr' hnames hnames'⟩
  · rw [foundByNames_iff hseated, foundByCaches_iff hseated, foundByIds_iff hseated]
    exact ⟨Iff.rfl, Iff.rfl⟩

/-! ### A site name under two customers -/

/-- On a connection that works, `_resolve_ids` returns if the names bind. -/
theorem Seated.resolves {w : World} (h : HoldsAt (Seated ∅) w) (hq : w.Quiet) {dims : Dims}
    (hbind : bindError (nameParams dims) = none) : resolving.ids dims w := by
  have hspec := resolveIds_onDims hq h.working.bound dims
  rw [show onDims w w.conn.working = w from h.exact.onDims, hbind] at hspec
  obtain ⟨ids, db', hok, _⟩ := hspec
  exact ⟨ids, _, hok⟩

/-- Cataloging one readable recording of a bucket, on a connection that works. -/
def bucketCall (key : PyStr) : Call := .catalogObject key (s3Source (fun _ => bucketOf key) []) none

theorem gated_bucketCall {key : PyStr} {dims : Dims} (htrusted : trustedDims none key = some (dims, key))
    (hbind : bindError (nameParams dims) = none) {w : World} (h : HoldsAt (Seated ∅) w) :
    GatedCall oneTopicEnv resolving (bucketCall key) (scripted w []) := by
  intro stat _ dims' effKey htrusted'
  have hdims : (dims', effKey) = (dims, key) := Option.some.inj (htrusted'.symm.trans htrusted)
  cases hdims
  have hseated : HoldsAt (Seated ∅) (scripted w []).tickClock.tickClock := h
  exact ⟨hseated.resolves rfl hbind, fun _ _ _ _ _ _ _ _ _ => trivial⟩

/-- The recording of another customer, with the same site and robot names. -/
def otherCustomerKey : PyStr := py "customer=d/customer_site=s/robot=r/source=b/date=2026-05-19/a.mcap"

def otherCustomerDims : Dims := { earlierDims with customer := py "d" }

/-- The first is cataloged, and then the other. -/
def oneCustomer : World := (bucketCall earlierKey).run oneTopicEnv (scripted (opened Db.empty 0) [])

def twoCustomers : World := (bucketCall otherCustomerKey).run oneTopicEnv (scripted oneCustomer [])

theorem run_twoCustomers : OperationRun oneTopicEnv resolving twoCustomers := by
  have hempty : HoldsAt (Seated ∅) (opened Db.empty 0) := by
    rw [opened_eq]
    exact seated_empty
  have hearlier : trustedDims none earlierKey = some (earlierDims, earlierKey) := by decide +kernel
  have hother : trustedDims none otherCustomerKey = some (otherCustomerDims, otherCustomerKey) := by decide +kernel
  have hbindEarlier : bindError (nameParams earlierDims) = none := by decide
  have hbindOther : bindError (nameParams otherCustomerDims) = none := by decide
  have hfirst : OperationStep oneTopicEnv resolving (opened Db.empty 0) oneCustomer :=
    OperationStep.call _ _ [] (gated_bucketCall hearlier hbindEarlier hempty)
  have hone : HoldsAt (Seated ∅) oneCustomer :=
    (passes_seated oneTopicEnv).run seated_opened seated_empty ⟨0, ReflTransGen.single hfirst⟩
  have hgate := gated_bucketCall hother hbindOther hone
  have hsecond : OperationStep oneTopicEnv resolving oneCustomer twoCustomers := OperationStep.call _ _ [] hgate
  exact ⟨0, (ReflTransGen.single hfirst).tail hsecond⟩

theorem twoCustomers_found :
    (compositeIds twoCustomers.caches otherCustomerDims).bind twoCustomers.conn.working.files.idOf = some 2 := by
  decide +kernel

theorem lookups_agree_twoCustomers :
    FoundByNames otherCustomerDims 2 twoCustomers ∧ FoundByCaches otherCustomerDims 2 twoCustomers ∧
      FoundByIds otherCustomerDims 2 twoCustomers := by
  have hagree := (lookups_agree run_twoCustomers).2.1 otherCustomerDims 2
  have hfound : FoundByCaches otherCustomerDims 2 twoCustomers := Option.bind_eq_some_iff.mp twoCustomers_found
  exact ⟨hagree.1.mpr hfound, hfound, hagree.2.mp hfound⟩

end McapCatalog.Builder
