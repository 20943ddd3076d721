import McapCatalog.Identity
import McapCatalog.Worker

/-!
# Calls on a freshly opened catalog

From caches loaded from the database, with nothing uncommitted, each call that returns leads to such a world
again, and is a function of the database alone.

* `viewing`, `opened_eq` — a world whose caches are those of the connection's view;
* `onDims`, `resolveIds_onDims` — **the identity is given its key** from exact dimension caches, whatever the topic caches
  hold;
* `resolveIds_viewing` — so it is on an opened catalog.
-/

namespace McapCatalog.Builder

open McapCatalog.PyText McapCatalog.PyError McapCatalog.KeyParse McapCatalog.McapSummary
open McapCatalog.Storage McapCatalog.Tables McapCatalog.RowidTable McapCatalog.KeyedRows
open McapCatalog.Connection McapCatalog.CatalogDb McapCatalog.Reconcile McapCatalog.Worker
open McapCatalog.SurvivingState McapCatalog.SurvivingState.Comp

/-- A world whose caches are those of what the connection sees. -/
def viewing (committed db : Db) (t : ℕ) : World := ⟨⟨committed, db, []⟩, Caches.of db, t⟩

theorem opened_eq (db : Db) (t : ℕ) : opened db t = viewing db db t := by
  rw [opened, viewing]
  simp only [loadTable_eq_idOf]
  rfl

variable {env : Env} {committed db : Db} {t : ℕ}

theorem viewing_quiet : (viewing committed db t).Quiet := rfl

theorem viewing_topicsExact : TopicsExact (viewing committed db t) := rfl

theorem commit_viewing : commit (viewing committed db t) = (.ok (), viewing db db t) := commit_quiet viewing_quiet

/-! ### Resolving an identity -/

/-- The lookups of the dimension tables, and what resolving a key of one does to the database. -/
structure Dimension {κ : Type} [DecidableEq κ] (L : Lookup κ) : Prop where
  cacheOf : ∀ db, L.cache (Caches.of db) = (L.table db).idOf
  setCacheOf : ∀ key db, L.setCache (Caches.of db) (L.table (L.resolved key db)).idOf = Caches.of (L.resolved key db)
  grow : ∀ key db, bindError (L.params key) = none → OnlyDims db (L.resolved key db)
  bound : ∀ env db, CatalogInv env db → L.Bound db

theorem dimension_customer : Dimension .customer :=
  ⟨fun _ => rfl, fun _ _ => rfl, fun _ _ hb => ⟨dimsGrow_customer _ hb, _, _, _, _, rfl⟩,
    fun _ _ h => h.customerBound⟩

theorem dimension_site : Dimension .site :=
  ⟨fun _ => rfl, fun _ _ => rfl, fun _ _ hb => ⟨dimsGrow_site _ hb, _, _, _, _, rfl⟩, fun _ _ h => h.siteBound⟩

theorem dimension_robot : Dimension .robot :=
  ⟨fun _ => rfl, fun _ _ => rfl, fun _ _ hb => ⟨dimsGrow_robot _ hb, _, _, _, _, rfl⟩, fun _ _ h => h.robotBound⟩

theorem dimension_source : Dimension .source :=
  ⟨fun _ => rfl, fun _ _ => rfl, fun _ _ hb => ⟨dimsGrow_source _ hb, _, _, _, _, rfl⟩,
    fun _ _ h => h.sourceBound⟩

/-- The world `w` with the connection's view replaced by `db` and the four dimension caches exact for it. -/
def onDims (w : World) (db : Db) : World :=
  (w.setWorking db).setCaches
    { w.caches with
      customer := db.customers.idOf
      site := db.sites.idOf
      robot := db.robots.idOf
      source := db.sources.idOf }

theorem onDims_viewing {db' : Db} (h : OnlyDims db db') : onDims (viewing committed db t) db' = viewing committed db' t := by
  obtain ⟨_, c, s, r, x, rfl⟩ := h
  rfl

/-- A resolver of a dimension only touches what `onDims` replaces. -/
structure OnDims {κ : Type} [DecidableEq κ] (L : Lookup κ) : Prop extends Dimension L where
  exact : ∀ w db, L.Exact (onDims w db)
  grown : ∀ key w db, L.grow key (onDims w db) = onDims w (L.resolved key db)

theorem onDims_customer : OnDims .customer := ⟨dimension_customer, fun _ _ => rfl, fun _ _ _ => rfl⟩

theorem onDims_site : OnDims .site := ⟨dimension_site, fun _ _ => rfl, fun _ _ _ => rfl⟩

theorem onDims_robot : OnDims .robot := ⟨dimension_robot, fun _ _ => rfl, fun _ _ _ => rfl⟩

theorem onDims_source : OnDims .source := ⟨dimension_source, fun _ _ => rfl, fun _ _ _ => rfl⟩

/-- One resolver: the key gets its id, or does not bind and nothing changes. -/
theorem resolveLookup_onDims {κ : Type} [DecidableEq κ] {L : Lookup κ} (hL : OnDims L) (key : κ) {w : World}
    (hq : w.Quiet) (hbound : L.Bound db) (hf : L.foreignKey db key = true) :
    match bindError (L.params key) with
    | some e => resolveLookup L key (onDims w db) = (.error e, onDims w db)
    | none => ∃ i db', resolveLookup L key (onDims w db) = (.ok i, onDims w db') ∧
        OnlyDims db db' ∧ (L.table db').idOf key = some i := by
  have hquiet : (onDims w db).Quiet := hq
  rcases hb : bindError (L.params key) with _ | e
  · refine ⟨L.newId key db, L.resolved key db, ?_, hL.grow key db hb, L.idOf_resolved key db⟩
    rw [resolveLookup_ok hquiet (hL.exact w db) hb (Or.inr hf), hL.grown]
    rfl
  · exact resolveLookup_unbound hquiet (hL.exact w db) hbound hb

/-- Every name in a dimension table binds. -/
structure DimsBound (db : Db) : Prop where
  customers : Lookup.customer.Bound db
  sites : Lookup.site.Bound db
  robots : Lookup.robot.Bound db
  sources : Lookup.source.Bound db

theorem DimsBound.grow {db' : Db} (h : DimsBound db) (hg : DimsGrow db db') : DimsBound db' :=
  ⟨hg.customerBound h.customers, hg.siteBound h.sites, hg.robotBound h.robots, hg.sourceBound h.sources⟩

theorem CatalogInv.dimsBound (h : CatalogInv env db) : DimsBound db :=
  ⟨h.customerBound, h.siteBound, h.robotBound, h.sourceBound⟩

/-- The parameters of the four resolvers. -/
def nameParams (dims : Dims) : List Param :=
  [.text dims.customer, .text dims.site, .text dims.robot, .text dims.source]

theorem bindError_single (p : Param) : bindError [p] = p.bindError := by
  rw [bindError_cons, bindError_nil, Option.or_none]

/-- **`_resolve_ids` gives the identity its key**, or raises because a name does not bind. -/
theorem resolveIds_onDims {w : World} (hq : w.Quiet) (hbound : DimsBound db) (dims : Dims) :
    match bindError (nameParams dims) with
    | some e => ∃ db', resolveIds dims (onDims w db) = (.error e, onDims w db') ∧ OnlyDims db db'
    | none => ∃ ids db', resolveIds dims (onDims w db) = (.ok ids, (onDims w db').commitWorking) ∧
        OnlyDims db db' ∧ fileKey db' dims = some (ids.key dims) := by
  rw [nameParams, bindError_cons, bindError_cons, bindError_cons, bindError_single]
  have h1 := resolveLookup_onDims onDims_customer dims.customer hq hbound.customers rfl
  rw [show Lookup.customer.params dims.customer = [.text dims.customer] from rfl, bindError_single] at h1
  rcases hb1 : (Param.text dims.customer).bindError with _ | e
  case some =>
    rw [hb1] at h1
    exact ⟨db, bind_of_error h1, OnlyDims.refl db⟩
  rw [hb1] at h1
  obtain ⟨c, db1, hrun1, hd1, hid1⟩ := h1
  have hbound1 := hbound.grow hd1.grow
  have h2 := resolveLookup_onDims onDims_site (c, dims.site) hq hbound1.sites (isSome_get_of_idOf hid1)
  rw [show Lookup.site.params (c, dims.site) = [.text dims.site] from rfl, bindError_single] at h2
  rw [Option.none_or]
  rcases hb2 : (Param.text dims.site).bindError with _ | e
  case some =>
    rw [hb2] at h2
    exact ⟨db1, (bind_of_ok hrun1).trans (bind_of_error h2), hd1⟩
  rw [hb2] at h2
  obtain ⟨s, db2, hrun2, hd2, hid2⟩ := h2
  have hbound2 := hbound1.grow hd2.grow
  have h3 := resolveLookup_onDims onDims_robot (s, dims.robot) hq hbound2.robots (isSome_get_of_idOf hid2)
  rw [show Lookup.robot.params (s, dims.robot) = [.text dims.robot] from rfl, bindError_single] at h3
  rw [Option.none_or]
  rcases hb3 : (Param.text dims.robot).bindError with _ | e
  case some =>
    rw [hb3] at h3
    exact ⟨db2, (bind_of_ok hrun1).trans ((bind_of_ok hrun2).trans (bind_of_error h3)), hd1.trans hd2⟩
  rw [hb3] at h3
  obtain ⟨r, db3, hrun3, hd3, hid3⟩ := h3
  have hbound3 := hbound2.grow hd3.grow
  have h4 := resolveLookup_onDims onDims_source dims.source hq hbound3.sources rfl
  rw [show Lookup.source.params dims.source = [.text dims.source] from rfl, bindError_single] at h4
  rw [Option.none_or]
  have hd := hd1.trans (hd2.trans hd3)
  rcases hb4 : (Param.text dims.source).bindError with _ | e
  case some =>
    rw [hb4] at h4
    exact ⟨db3, (bind_of_ok hrun1).trans ((bind_of_ok hrun2).trans ((bind_of_ok hrun3).trans
      (bind_of_error h4))), hd⟩
  rw [hb4] at h4
  obtain ⟨x, db4, hrun4, hd4, hid4⟩ := h4
  have hcommit : commit (onDims w db4) = (.ok (), (onDims w db4).commitWorking) := commit_quiet hq
  refine ⟨⟨c, s, r, x⟩, db4, ?_, hd.trans hd4, ?_⟩
  · exact (bind_of_ok hrun1).trans ((bind_of_ok hrun2).trans ((bind_of_ok hrun3).trans ((bind_of_ok hrun4).trans
      (bind_of_ok hcommit))))
  · refine fileKey_eq_some_iff.mpr ⟨?_, ?_, ?_, hid4, rfl, rfl⟩
    · exact hd4.grow.customers.idOf (hd3.grow.customers.idOf (hd2.grow.customers.idOf hid1))
    · exact hd4.grow.sites.idOf (hd3.grow.sites.idOf hid2)
    · exact hd4.grow.robots.idOf hid3

/-- `_resolve_ids` on an opened catalog. -/
theorem resolveIds_viewing (hinv : CatalogInv env db) (dims : Dims) (committed : Db) (t : ℕ) :
    match bindError (nameParams dims) with
    | some e => ∃ db', resolveIds dims (viewing committed db t) = (.error e, viewing committed db' t) ∧
        OnlyDims db db'
    | none => ∃ ids db', resolveIds dims (viewing committed db t) = (.ok ids, viewing db' db' t) ∧
        OnlyDims db db' ∧ fileKey db' dims = some (ids.key dims) := by
  have hspec := resolveIds_onDims (w := viewing committed db t) rfl hinv.dimsBound dims
  rw [onDims_viewing (OnlyDims.refl db)] at hspec
  cases hb : bindError (nameParams dims) with
  | some e =>
      rw [hb] at hspec
      obtain ⟨db', hrun, honly⟩ := hspec
      rw [onDims_viewing honly] at hrun
      exact ⟨db', hrun, honly⟩
  | none =>
      rw [hb] at hspec
      obtain ⟨ids, db', hrun, honly, hkey⟩ := hspec
      rw [onDims_viewing honly] at hrun
      exact ⟨ids, db', hrun, honly, hkey⟩

end McapCatalog.Builder
