import McapCatalog.Timeless
import McapCatalog.Runs
import McapCatalog.FileIds
import McapCatalog.ReconcileRun

/-!
# One object, two paths

`catalog_object` and `full_reconcile` treat an object by two pieces of code: one compares the stored etag in SQL, the other
through the caches, one reads before it writes, the other in two phases.

* `treatListing` — what `full_reconcile` does with one listing, up to its sweep;
* `RowsKnown`, `rowsKnown_reached` — what makes the two skip tests the same: the caches know every dimension row;
* `resolveIds_returned` — resolving an identity finds its key in the caches, or gives it one that no row has;
* `PathsAgree`, `Vanishes` — the same status and rows, up to times; an object that is gone after its failed read;
* `pathsAgree_iff` — **the two paths agree on every reached catalog exactly when the object does not vanish.**
-/

namespace McapCatalog.Reconcile

open McapCatalog.PyText McapCatalog.PyError McapCatalog.KeyParse McapCatalog.Storage McapCatalog.Tables
open McapCatalog.RowidTable McapCatalog.Connection McapCatalog.CatalogDb McapCatalog.Builder McapCatalog.Runs
open McapCatalog.SurvivingState McapCatalog.SurvivingState.Comp

/-! ### Caches that know every row -/

/-- The date and the file name of a key bind. -/
def KeyBinds (key : FileKey) : Prop := bindError [.text key.date, .text key.filename] = none

/-- The caches know every dimension row, and what the stored rows are keyed by binds. -/
structure RowsKnown (w : World) : Prop where
  cached : DimsCached w.conn.working w.caches
  working : ∀ r ∈ w.conn.working.files.rows, KeyBinds r.key
  committed : ∀ r ∈ w.conn.committed.files.rows, KeyBinds r.key

theorem dimsCached_of (db : Db) : DimsCached db (Caches.of db) :=
  ⟨fun _ _ h => h, fun _ _ h => h, fun _ _ h => h, fun _ _ h => h⟩

/-- Tables with the same dimensions are known to the same caches. -/
theorem dimsCached_of_eq {db db' : Db} {caches : Caches} (h : DimsCached db caches) (h1 : db'.customers = db.customers)
    (h2 : db'.sites = db.sites) (h3 : db'.robots = db.robots) (h4 : db'.sources = db.sources) : DimsCached db' caches :=
  ⟨by rw [h1]; exact h.customer, by rw [h2]; exact h.site, by rw [h3]; exact h.robot, by rw [h4]; exact h.source⟩

theorem dimsCached_rollBack {db db' : Db} {caches : Caches} (h : DimsCached db' caches) (hgrow : DimsGrow db db') :
    DimsCached db caches where
  customer k i hi := h.customer k i (hgrow.customers.idOf hi)
  site k i hi := h.site k i (hgrow.sites.idOf hi)
  robot k i hi := h.robot k i (hgrow.robots.idOf hi)
  source k i hi := h.source k i (hgrow.sources.idOf hi)

variable {env : Env} {w w' : World}

/-- **Every act keeps the rows known.** -/
theorem rowsKnown_act (h : Act env w w') (hk : RowsKnown w) : RowsKnown w' := by
  cases h with
  | tick => exact ⟨hk.cached, hk.working, hk.committed⟩
  | dims ho _ _ _ hcached =>
      refine ⟨hcached hk.cached, ?_, hk.committed⟩
      obtain ⟨_, c, s, r, x, rfl⟩ := ho
      exact hk.working
  | delete p =>
      refine ⟨dimsCached_of_eq hk.cached rfl rfl rfl rfl, fun r hr => ?_, hk.committed⟩
      exact hk.working r (Table.mem_filter.mp hr).1
  | failures f b => exact ⟨dimsCached_of_eq hk.cached rfl rfl rfl rfl, hk.working, hk.committed⟩
  | commit => exact ⟨hk.cached, hk.working, hk.working⟩
  | @wrote ids written db' hsync hids hw hbind =>
      obtain ⟨now, setId, blob, hfiles, _⟩ := hw.files
      have hrows : ∀ r ∈ db'.files.rows, KeyBinds r.key := by
        intro r hr
        rw [hfiles] at hr
        rcases Table.mem_upsert.mp hr with hold | hnew
        · exact hk.working r hold.1
        · rw [hnew]
          exact hbind
      have hcached : DimsCached db' w.caches := dimsCached_of_eq hk.cached hw.customers hw.sites hw.robots hw.sources
      exact ⟨⟨hcached.customer, hcached.site, hcached.robot, hcached.source⟩, hrows, hrows⟩
  | reload t hsync => exact ⟨dimsCached_of _, hk.working, hk.committed⟩

theorem rowsKnown_path (h : Path env w w') (hk : RowsKnown w) : RowsKnown w' := by
  induction h with
  | refl => exact hk
  | tail _ ha ih => exact rowsKnown_act ha ih

theorem rowsKnown_opened {db : Db} (h : ∀ r ∈ db.files.rows, KeyBinds r.key) (t : ℕ) : RowsKnown (Worker.opened db t) := by
  refine ⟨?_, h, h⟩
  rw [opened_caches]
  exact dimsCached_of db

theorem rowsKnown_updateTags (hw : WorldInv env w) (hk : RowsKnown w) (fileId : ℕ) (setKv : List (PyStr × PyStr))
    (unsetKeys : List PyStr) : RowsKnown (updateTags env fileId setKv unsetKeys w).2 := by
  rcases updateTags_cases env hw.quiet fileId setKv unsetKeys with ⟨hrun, honly⟩ | ⟨e, hrun⟩
  · rw [hrun]
    obtain ⟨o, hdb⟩ := honly.only
    have hrows : ∀ r ∈ (edited fileId (env.timeNs w.clock) setKv unsetKeys w.conn.working).files.rows, KeyBinds r.key := by
      rw [hdb]
      exact hk.working
    have hcached : DimsCached (edited fileId (env.timeNs w.clock) setKv unsetKeys w.conn.working) w.caches := by
      rw [hdb]
      exact dimsCached_of_eq hk.cached rfl rfl rfl rfl
    exact ⟨hcached, hrows, hrows⟩
  · rw [hrun]
    exact ⟨dimsCached_rollBack hk.cached hw.behind.dims, hk.committed, hk.committed⟩

/-- **In every reached world the caches know every row.** -/
theorem rowsKnown_reached (hinj : FingerprintInjective env) (h : Reached env w) : RowsKnown w := by
  induction h with
  | empty t => exact rowsKnown_opened (fun r hr => absurd hr List.not_mem_nil) t
  | @call v hv c ih =>
      have hw := hv.worldInv hinj
      cases c with
      | catalogObject key source stat => exact rowsKnown_path (builds_catalogObject hinj key source stat v hw).2 ih
      | applyExtract ex => exact rowsKnown_path (builds_applyExtract hinj ex v hw).2 ih
      | deleteByKey key => exact rowsKnown_path (builds_deleteByKey key v hw).2 ih
      | fullReconcile source workers => exact rowsKnown_path (builds_fullReconcile hinj source workers v hw).2 ih
      | updateTags fileId setKv unsetKeys => exact rowsKnown_updateTags hw ih fileId setKv unsetKeys
      | restart => exact rowsKnown_opened ih.committed v.clock

/-! ### Resolving an identity -/

section Resolving

variable {κ : Type} [DecidableEq κ]

/-- A resolver that returned had the entry, or stored a row under an id that was free. -/
theorem resolveLookup_returned {L : Lookup κ} {key : κ} {i : ℕ} (hq : w.Quiet)
    (hcached : ∀ k i, (L.table w.conn.working).idOf k = some i → L.cache w.caches k = some i)
    (hrun : resolveLookup L key w = (.ok i, w')) :
    (L.cache w.caches key = some i ∧ w' = w) ∨
      (L.cache w.caches key = none ∧ (L.table w.conn.working).get i = none ∧ bindError (L.params key) = none ∧
        w'.conn = { w.conn with working := L.resolved key w.conn.working }) := by
  rcases hc : L.cache w.caches key with _ | j
  · right
    have hnew : (L.table w.conn.working).idOf key = none := by
      rcases hid : (L.table w.conn.working).idOf key with _ | k
      · rfl
      · rw [hcached key k hid] at hc
        cases hc
    by_cases hf : ((L.table w.conn.working).find key).isSome ∨ L.foreignKey w.conn.working key = true
    · rcases hb : bindError (L.params key) with _ | e
      · rw [resolveLookup_miss hq hc hb hf] at hrun
        cases hrun
        refine ⟨rfl, ?_, rfl, rfl⟩
        rw [Lookup.newId, hnew, Table.get_eq_none_iff]
        exact fun r hr => Nat.ne_of_lt (Table.id_lt_nextId _ hr)
      · rw [resolveLookup, bind_of_ok (look_apply w)] at hrun
        simp only [hc] at hrun
        rw [bind_of_error (executeChecked_unbound hq hb _)] at hrun
        cases hrun
    · have hrefused : L.insertOrIgnore key w.conn.working = .error Db.foreignKeyFailed := by
        rw [Lookup.insertOrIgnore, if_neg (by simpa using hf)]
      rw [resolveLookup, bind_of_ok (look_apply w)] at hrun
      simp only [hc] at hrun
      rcases hb : bindError (L.params key) with _ | e
      · rw [bind_of_error (executeChecked_error hq hb hrefused)] at hrun
        cases hrun
      · rw [bind_of_error (executeChecked_unbound hq hb _)] at hrun
        cases hrun
  · left
    rw [resolveLookup, bind_of_ok (look_apply w)] at hrun
    simp only [hc] at hrun
    cases hrun
    exact ⟨rfl, rfl⟩

theorem resolveLookup_hit {L : Lookup κ} {key : κ} {i : ℕ} (h : L.cache w.caches key = some i) :
    resolveLookup L key w = (.ok i, w) := by
  rw [resolveLookup, bind_of_ok (look_apply w)]
  simp only [h]
  rfl

/-- A resolver of a dimension leaves the files alone. -/
theorem files_resolveLookup {L : Lookup κ} (hL : Dimension L) (key : κ) (hq : w.Quiet) :
    (resolveLookup L key w).2.conn.working.files = w.conn.working.files ∧ (resolveLookup L key w).2.Quiet := by
  rcases resolveLookup_cases L key hq with hsame | ⟨hb, _, hgrown⟩
  · rw [hsame]
    exact ⟨rfl, hq⟩
  · rw [hgrown]
    obtain ⟨_, c, s, r, x, hdb⟩ := hL.grow key w.conn.working hb
    refine ⟨?_, hq⟩
    show (L.resolved key w.conn.working).files = _
    rw [hdb]

end Resolving

/-- Cached ids are returned after a commit. -/
theorem resolveIds_cached (hq : w.Quiet) {dims : Dims} {ids : Ids} (h : cachedIds w.caches dims = some ids) :
    resolveIds dims w = (.ok ids, w.commitWorking) := by
  simp only [cachedIds, bind, Option.bind_eq_some_iff] at h
  obtain ⟨c, hc, s, hs, r, hr, x, hx, hids⟩ := h
  cases hids
  have h1 : resolveCustomer dims.customer w = (.ok c, w) := resolveLookup_hit hc
  have h2 : resolveSite c dims.site w = (.ok s, w) := resolveLookup_hit hs
  have h3 : resolveRobot s dims.robot w = (.ok r, w) := resolveLookup_hit hr
  have h4 : resolveSource dims.source w = (.ok x, w) := resolveLookup_hit hx
  rw [resolveIds, bind_of_ok h1, bind_of_ok h2, bind_of_ok h3, bind_of_ok h4, bind_of_ok (commit_quiet hq)]
  rfl

/-- **`_resolve_ids`, returning**: the key came out of the caches, or no row can have it. -/
theorem resolveIds_returned (hq : w.Quiet) (hcached : DimsCached w.conn.working w.caches) {dims : Dims} {ids : Ids}
    (h : resolveIds dims w = (.ok ids, w')) :
    (cachedIds w.caches dims = some ids ∧ w' = w.commitWorking) ∨
      (cachedIds w.caches dims = none ∧ idsPresent w.conn.working ids = false ∧
        w'.conn.working.files = w.conn.working.files) := by
  rw [resolveIds] at h
  obtain ⟨c, w1, h1, h⟩ := bind_eq_ok h
  obtain ⟨s, w2, h2, h⟩ := bind_eq_ok h
  obtain ⟨r, w3, h3, h⟩ := bind_eq_ok h
  obtain ⟨x, w4, h4, h⟩ := bind_eq_ok h
  have hfiles1 := files_resolveLookup dimension_customer dims.customer hq
  rw [show (resolveLookup .customer dims.customer w).2 = w1 from congrArg Prod.snd h1] at hfiles1
  have hfiles2 := files_resolveLookup dimension_site (c, dims.site) hfiles1.2
  rw [show (resolveLookup .site (c, dims.site) w1).2 = w2 from congrArg Prod.snd h2] at hfiles2
  have hfiles3 := files_resolveLookup dimension_robot (s, dims.robot) hfiles2.2
  rw [show (resolveLookup .robot (s, dims.robot) w2).2 = w3 from congrArg Prod.snd h3] at hfiles3
  have hfiles4 := files_resolveLookup dimension_source dims.source hfiles3.2
  rw [show (resolveLookup .source dims.source w3).2 = w4 from congrArg Prod.snd h4] at hfiles4
  have hfiles : w4.conn.working.files = w.conn.working.files :=
    hfiles4.1.trans (hfiles3.1.trans (hfiles2.1.trans hfiles1.1))
  rw [bind_of_ok (commit_quiet hfiles4.2)] at h
  cases h
  rcases resolveLookup_returned hq hcached.customer h1 with ⟨hc, rfl⟩ | ⟨hc, hfree, _⟩
  · rcases resolveLookup_returned hq hcached.site h2 with ⟨hs, rfl⟩ | ⟨hs, hfree, _⟩
    · rcases resolveLookup_returned hq hcached.robot h3 with ⟨hr, rfl⟩ | ⟨hr, hfree, _⟩
      · rcases resolveLookup_returned hq hcached.source h4 with ⟨hx, rfl⟩ | ⟨hx, hfree, _⟩
        · left
          refine ⟨?_, rfl⟩
          simp only [Lookup.customer, Lookup.site, Lookup.robot, Lookup.source] at hc hs hr hx
          simp [cachedIds, hc, hs, hr, hx]
        · right
          simp only [Lookup.customer, Lookup.site, Lookup.robot, Lookup.source] at hc hs hr hx hfree
          exact ⟨by simp [cachedIds, hx], by simp [idsPresent, Db.references, hfree], hfiles⟩
      · right
        simp only [Lookup.customer, Lookup.site, Lookup.robot] at hc hs hr hfree
        exact ⟨by simp [cachedIds, hc, hs, hr], by simp [idsPresent, Db.references, hfree], hfiles⟩
    · right
      simp only [Lookup.customer, Lookup.site] at hc hs hfree
      exact ⟨by simp [cachedIds, hc, hs], by simp [idsPresent, Db.references, hfree], hfiles⟩
  · right
    simp only [Lookup.customer] at hc hfree
    exact ⟨by simp [cachedIds, hc], by simp [idsPresent, Db.references, hfree], hfiles⟩

/-- **Both skip tests find the same etag.** -/
theorem storedEtag_eq (hw : WorldInv env w) (hk : RowsKnown w) {dims : Dims} {ids : Ids}
    (h : resolveIds dims w = (.ok ids, w')) :
    (w'.conn.working.files.find (ids.key dims)).map (fun r => r.val.etag) =
      (compositeIds w.caches dims).bind fun key => (w.conn.working.files.find key).map fun r => r.val.etag := by
  rcases resolveIds_returned hw.quiet hk.cached h with ⟨hc, rfl⟩ | ⟨hc, habsent, hfiles⟩
  · rw [compositeIds, hc]
    rfl
  · have hnone : w.conn.working.files.find (ids.key dims) = none := by
      rw [Table.find_eq_none_iff]
      intro r hr hkey
      have hrefs := hw.working.fileRefs r hr
      rw [hkey] at hrefs
      exact absurd (hrefs.symm.trans habsent) (by decide)
    rw [compositeIds, hc, hfiles, hnone]
    rfl

/-! ### The two paths -/

/-- `full_reconcile` from its listing up to its sweep. -/
def treatListings (env : Env) (source : Source) (workers : Workers) (listings : List Listing) : Py (Scan × Tally) := do
  let stored ← query [] fun db key => (db.files.find key).map fun r => r.val.etag
  let scan ← foldEach (classify env source stored) ⟨fun _ => none, [], Tally.zero⟩ listings
  let tally ← readAndApply env source workers scan.toExtract scan.tally
  pure (scan, tally)

/-- The first half of `full_reconcile` is `treatListings`. -/
theorem fullReconcile_eq (env : Env) (source : Source) (workers : Workers) :
    fullReconcile env source workers = (do
      let listings ← ask source.listAll
      let (scan, tally) ← treatListings env source workers listings
      let w ← look
      let rows ← query [] fun db => db.files.rows
      let tally ← foldEach (sweepRow (present w.caches scan.dimsByKey listings)) tally rows
      commit
      recordBuild env (tally.cataloged + tally.skipped) tally.failed
        (if tally.failed = 0 then py "ok" else py "partial")
      pure tally) := by
  simp only [treatListings, bind_bind]
  rfl

/-- What `full_reconcile` does with one listing. -/
def treatListing (env : Env) (source : Source) (workers : Workers) (lst : Listing) : Py Tally := do
  let out ← treatListings env source workers [lst]
  pure out.2

/-- The stored etag a listing is compared with. -/
def storedEtag (w : World) (dims : Dims) : Option PyStr :=
  (compositeIds w.caches dims).bind fun key => (w.conn.working.files.find key).map fun r => r.val.etag

/-- One listing of an unchanging source: its failure, its skip, or its extract. -/
theorem treatListing_apply (env : Env) (hq : w.Quiet) {source : Source} (hs : source.Unchanging) (workers : Workers) (key : PyStr)
    (stat : Stat) :
    treatListing env source workers ⟨key, stat⟩ w =
      match trustedDims (source.intendedKey w.clock key) key with
      | none => (recordFailure env key (py "unparseable key") >>= fun _ => commit >>= fun _ =>
          pure (Tally.zero.add .failed) : Py Tally) w.tickClock
      | some (dims, effKey) =>
        if storedEtag w dims = some stat.etag then (.ok (Tally.zero.add .skipped), w.tickClock)
        else (applyExtract env (extracted source ⟨key, stat, dims, effKey⟩) >>= fun r =>
          pure (Tally.zero.add r.status) : Py Tally) w.tickClock.tickClock.tickClock := by
  have hdims : resolveKeyDims key source w =
      (.ok (trustedDims (source.intendedKey w.clock key) key), w.tickClock) := rfl
  rw [treatListing, treatListings, bind_bind, bind_of_ok (query_ok hq bindError_nil _), bind_bind, foldEach_cons, bind_bind,
    classify, bind_bind, bind_of_ok hdims]
  rcases trustedDims (source.intendedKey w.clock key) key with _ | ⟨dims, effKey⟩
  · simp only [bind_bind]
    cases workers <;> rfl
  · dsimp only
    rw [bind_bind, bind_of_ok (look_apply _)]
    by_cases hsame : storedEtag w dims = some stat.etag
    · rw [if_pos hsame]
      rw [if_pos (show (compositeIds w.tickClock.caches dims).bind _ = some stat.etag from hsame)]
      cases workers <;> rfl
    · rw [if_neg hsame]
      rw [if_neg (show ¬(compositeIds w.tickClock.caches dims).bind _ = some stat.etag from hsame)]
      rw [bind_of_ok (pure_apply _ _), foldEach_nil, bind_of_ok (pure_apply _ _)]
      have hjob : readAndApply env source workers [⟨key, stat, dims, effKey⟩] Tally.zero =
          foldEach (extractAndApply env source) Tally.zero [⟨key, stat, dims, effKey⟩] := by
        cases workers <;> rfl
      show ((readAndApply env source workers [⟨key, stat, dims, effKey⟩] Tally.zero >>= _) >>= _ : Py Tally) _ = _
      rw [hjob, bind_bind, foldEach_cons, bind_bind, extractAndApply, bind_bind, bind_of_ok (tick_apply _), bind_bind,
        bind_of_ok (tick_apply _), extract_eq_extracted hs, applyAndCount, bind_bind]
      rfl

/-! ### The same end -/

/-- The same files, tags and failures, up to times. -/
structure SameStored (db db' : Db) : Prop where
  files : db.files.mapVals undatedCols = db'.files.mapVals undatedCols
  tagsEmbedded : db.tagsEmbedded = db'.tagsEmbedded
  tagsOverride : db.tagsOverride = db'.tagsOverride
  failures : ∀ k, failureText db k = failureText db' k

theorem SameStored.refl (db : Db) : SameStored db db := ⟨rfl, rfl, rfl, fun _ => rfl⟩

theorem sameStored_of_sameRows {db db' : Db} (h : SameRows db db') : SameStored db db' := by
  have hembedded := congrArg Db.tagsEmbedded h.undated
  have hoverride := congrArg Db.tagsOverride h.undated
  exact ⟨h.files, hembedded, hoverride, h.failures⟩

/-- Both calls raise the same exception or return the same status, and leave the same rows. -/
def SameEnd (out out' : Except PyErr CatalogResult × World) : Prop :=
  out.1.map CatalogResult.status = out'.1.map CatalogResult.status ∧
    SameStored out.2.conn.working out'.2.conn.working

theorem sameEnd_of_alike {m m' : Py CatalogResult} (h : Alike SameButTimes m m') {v v' : World}
    (hv : SameButTimes v v') : SameEnd (m v) (m' v') := by
  obtain ⟨hexit, hleft⟩ := h v v' hv
  exact ⟨by rw [hexit], sameStored_of_sameRows hleft.working⟩

/-- Two results with one status, after calls that run alike. -/
theorem sameEnd_of_alike_status {m m' : Py Unit} (h : Alike SameButTimes m m') (r r' : CatalogResult)
    (hr : r.status = r'.status) {v v' : World} (hv : SameButTimes v v') :
    SameEnd ((m >>= fun _ => pure r : Py CatalogResult) v) ((m' >>= fun _ => pure r' : Py CatalogResult) v') := by
  obtain ⟨hexit, hleft⟩ := h v v' hv
  rw [bind_apply, bind_apply]
  rcases hm : m v with ⟨out, u⟩
  rcases hm' : m' v' with ⟨out', u'⟩
  rw [hm, hm'] at hexit hleft
  cases hexit
  cases out with
  | ok _ => exact ⟨congrArg Except.ok hr, sameStored_of_sameRows hleft.working⟩
  | error e => exact ⟨rfl, sameStored_of_sameRows hleft.working⟩

/-- What `catalog_object` does with an identity, once its key is resolved. -/
def catalogResolved (env : Env) (key : PyStr) (source : Source) (stat : Stat) (dims : Dims) (effKey : PyStr)
    (ids : Ids) : Py CatalogResult := do
  let existing ← query (compositeParams dims) fun db => (db.files.find (ids.key dims)).map fun r => r.val.etag
  if existing = some stat.etag then
    pure ⟨.skipped, []⟩
  else do
    match (← attempt (ask fun t => source.readSummary t key stat.size)) with
    | .error e => do
      quarantineExisting env ids dims effKey e.errorText
      pure ⟨.failed, e.str⟩
    | .ok summary => writeFileRow env ids ⟨dims, effKey, stat, summary⟩

/-- `catalog_object` with a fingerprint: an unparseable key, or an identity. -/
theorem catalogObject_apply (env : Env) (key : PyStr) (source : Source) (stat : Stat) (w : World) :
    catalogObject env key source (some stat) w =
      match trustedDims (source.intendedKey w.clock key) key with
      | none => (recordFailure env key (py "unparseable key") >>= fun _ => commit >>= fun _ =>
          pure ⟨.failed, py "unparseable key"⟩ : Py CatalogResult) w.tickClock
      | some (dims, effKey) =>
        (resolveIds dims >>= catalogResolved env key source stat dims effKey : Py CatalogResult) w.tickClock := by
  have hdims : resolveKeyDims key source w =
      (.ok (trustedDims (source.intendedKey w.clock key) key), w.tickClock) := rfl
  rw [catalogObject, bind_of_ok (pure_apply _ _)]
  show catalogWithStat env key source stat w = _
  rw [catalogWithStat, bind_of_ok hdims]
  rcases trustedDims (source.intendedKey w.clock key) key with _ | ⟨dims, effKey⟩
  · rfl
  · rfl

/-- A summary that cannot be read, of an object that is gone by then. -/
def Gone (source : Source) (key : PyStr) (stat : Stat) : Prop :=
  (∃ e, source.readSummary 0 key stat.size = .error e) ∧ source.stat 0 key = .ok none

/-- Unless the object is gone, its extract is its summary or its error. -/
theorem extracted_of_not_gone {source : Source} {key : PyStr} {stat : Stat} (h : ¬Gone source key stat) (dims : Dims)
    (effKey : PyStr) :
    extracted source ⟨key, stat, dims, effKey⟩ =
      match source.readSummary 0 key stat.size with
      | .ok summary => ⟨key, stat, some dims, effKey, .ready summary⟩
      | .error e => ⟨key, stat, some dims, effKey, .error e.errorText⟩ := by
  rw [extracted, Job.extract, extractSummary]
  rcases hread : source.readSummary 0 key stat.size with e | summary
  · rcases hstat : source.stat 0 key with e' | found
    · rfl
    · cases found with
      | none => exact absurd ⟨⟨e, hread⟩, hstat⟩ h
      | some _ => rfl
  · rfl

theorem readSummary_unchanging {source : Source} (hs : source.Unchanging) (t : ℕ) :
    source.readSummary t = source.readSummary 0 := by
  funext key size
  rw [Source.readSummary, Source.readSummary, hs.openSummary t 0]

/-- **Writing a file that is not skipped**: both paths, from worlds that differ in times. -/
theorem sameEnd_applied (hinj : FingerprintInjective env) {source : Source} (hs : source.Unchanging) {key : PyStr}
    {stat : Stat} (hgone : ¬Gone source key stat) {dims : Dims} {effKey : PyStr} {v v' : World} (hv : WorldInv env v)
    (hv' : WorldInv env v') (hsame : SameButTimes v v')
    (hnew : ∀ ids u, resolveIds dims v = (.ok ids, u) →
      (u.conn.working.files.find (ids.key dims)).map (fun r => r.val.etag) ≠ some stat.etag) :
    SameEnd ((resolveIds dims >>= catalogResolved env key source stat dims effKey : Py CatalogResult) v)
      (applyExtract env (extracted source ⟨key, stat, dims, effKey⟩) v') := by
  have hresolve := alike_resolveIds dims v v' hsame
  have hinv := (builds_resolveIds dims v hv).1
  have hinv' := (builds_resolveIds dims v' hv').1
  rw [extracted_of_not_gone hgone]
  rcases hr : resolveIds dims v with ⟨out, u⟩
  rcases hr' : resolveIds dims v' with ⟨out', u'⟩
  rw [hr, hr'] at hresolve
  rw [hr] at hinv
  rw [hr'] at hinv'
  obtain ⟨hexit, hleft⟩ := hresolve
  cases hexit
  cases out with
  | error e =>
      have hraised : ∀ f : Ids → Py CatalogResult, (resolveIds dims >>= f) v' = (.error e, u') := fun f => bind_of_error hr'
      rw [bind_of_error hr]
      cases source.readSummary 0 key stat.size with
      | error e' =>
          show SameEnd _ ((resolveIds dims >>= fun ids => quarantineExisting env ids dims effKey e'.errorText >>= fun _ =>
            pure ⟨.failed, e'.errorText⟩ : Py CatalogResult) v')
          rw [hraised]
          exact ⟨rfl, sameStored_of_sameRows hleft.working⟩
      | ok summary =>
          show SameEnd _ ((resolveIds dims >>= fun ids => writeFileRow env ids ⟨dims, effKey, stat, summary⟩) v')
          rw [hraised]
          exact ⟨rfl, sameStored_of_sameRows hleft.working⟩
  | ok ids =>
      have hreturned : ∀ f : Ids → Py CatalogResult, (resolveIds dims >>= f) v' = f ids u' := fun f => bind_of_ok hr'
      rw [bind_of_ok hr, catalogResolved]
      rcases hc : bindError (compositeParams dims) with _ | e
      · rw [bind_of_ok (query_ok hinv.quiet hc _), if_neg (hnew ids u hr)]
        have hask : attempt (ask fun t => source.readSummary t key stat.size) u =
            (.ok (source.readSummary 0 key stat.size), u.tickClock) := by
          rw [attempt_apply, ask_apply, readSummary_unchanging hs]
        rw [bind_of_ok hask]
        have htick : SameButTimes u.tickClock u' := ⟨hleft.committed, hleft.working, hleft.faults, hleft.caches⟩
        cases source.readSummary 0 key stat.size with
        | error e' =>
            show SameEnd _ ((resolveIds dims >>= fun ids => quarantineExisting env ids dims effKey e'.errorText >>= fun _ =>
              pure ⟨.failed, e'.errorText⟩ : Py CatalogResult) v')
            rw [hreturned]
            exact sameEnd_of_alike_status (alike_quarantineExisting env ids dims effKey e'.errorText)
              ⟨.failed, e'.str⟩ ⟨.failed, e'.errorText⟩ rfl htick
        | ok summary =>
            show SameEnd _ ((resolveIds dims >>= fun ids => writeFileRow env ids ⟨dims, effKey, stat, summary⟩) v')
            rw [hreturned]
            exact sameEnd_of_alike (alike_writeFileRow env ids _) htick
      · rw [bind_of_error (query_unbound hinv.quiet hc _)]
        -- The same parameter fails to bind in the quarantine of the other path.
        have hraised : ∀ (x : World) (text : PyStr) (r : CatalogResult), x.Quiet →
            (quarantineExisting env ids dims effKey text >>= fun _ => pure r : Py CatalogResult) x = (.error e, x) := by
          intro x text r hx
          have hq : quarantineExisting env ids dims effKey text x = (.error e, x) := by
            rw [quarantineExisting]
            exact bind_of_error (execute_unbound hx hc _)
          exact bind_of_error hq
        cases source.readSummary 0 key stat.size with
        | error e' =>
            show SameEnd _ ((resolveIds dims >>= fun ids => quarantineExisting env ids dims effKey e'.errorText >>= fun _ =>
              pure ⟨.failed, e'.errorText⟩ : Py CatalogResult) v')
            rw [hreturned, hraised _ _ _ hinv'.quiet]
            exact ⟨rfl, sameStored_of_sameRows hleft.working⟩
        | ok summary =>
            show SameEnd _ ((resolveIds dims >>= fun ids => writeFileRow env ids ⟨dims, effKey, stat, summary⟩) v')
            rw [hreturned]
            have hsync := resolveIds_synced hv' hr'
            rcases he : transactionError (idsPresent u'.conn.working ids) ⟨dims, effKey, stat, summary⟩ with _ | e'
            · have hbinds := compositeBinds_of_transactionError he
              rw [hc] at hbinds
              cases hbinds
            · obtain ⟨t, hrun⟩ := writeFileRow_rolledBack hinj hinv'.quiet hinv'.exact hsync hinv'.working.topics he
              rw [hrun, hraised ⟨u'.conn, Caches.of u'.conn.working, t⟩ _ _ hinv'.quiet]
              exact ⟨rfl, sameStored_of_sameRows hleft.working⟩

/-! ### The paths agree -/

/-- `catalog_object` and the first half of `full_reconcile`, given one object in one state of the catalog: both raise the
same exception or count the same status, and leave the same rows. -/
def PathsAgree (env : Env) (source : Source) (workers : Workers) (key : PyStr) (stat : Stat) (w : World) : Prop :=
  (catalogObject env key source (some stat) w).1.map (fun r => Tally.zero.add r.status) =
      (treatListing env source workers ⟨key, stat⟩ w).1 ∧
    SameStored (catalogObject env key source (some stat) w).2.conn.working
      (treatListing env source workers ⟨key, stat⟩ w).2.conn.working

/-- The object of a trusted key is gone when its summary is read. -/
def Vanishes (source : Source) (key : PyStr) (stat : Stat) : Prop :=
  (trustedDims (source.intendedKey 0 key) key).isSome ∧ Gone source key stat

theorem pathsAgree_of_sameEnd {source : Source} {workers : Workers} {key : PyStr} {stat : Stat} {m : Py CatalogResult}
    {v : World} (h : SameEnd (catalogObject env key source (some stat) w) (m v))
    (hrun : treatListing env source workers ⟨key, stat⟩ w = (m >>= fun r => pure (Tally.zero.add r.status) : Py Tally) v) :
    PathsAgree env source workers key stat w := by
  obtain ⟨hstatus, hrows⟩ := h
  rw [PathsAgree, hrun, bind_apply]
  rcases hm : m v with ⟨out, u⟩
  rw [hm] at hstatus hrows
  cases out with
  | error e =>
      refine ⟨?_, hrows⟩
      cases hout : (catalogObject env key source (some stat) w).1 with
      | error e' =>
          rw [hout] at hstatus
          exact congrArg Except.error (Except.error.inj hstatus)
      | ok r => rw [hout] at hstatus; cases hstatus
  | ok r =>
      refine ⟨?_, hrows⟩
      cases hout : (catalogObject env key source (some stat) w).1 with
      | error e' => rw [hout] at hstatus; cases hstatus
      | ok r' =>
          rw [hout] at hstatus
          exact congrArg (fun status => Except.ok (Tally.zero.add status)) (Except.ok.inj hstatus)

/-- **An object that does not vanish** is treated alike in every reached state. -/
theorem pathsAgree_of_not_vanishes (hinj : FingerprintInjective env) {source : Source} (hs : source.Unchanging)
    {key : PyStr} {stat : Stat} (h : ¬Vanishes source key stat) (hreached : Reached env w) (workers : Workers) :
    PathsAgree env source workers key stat w := by
  have hw := hreached.worldInv hinj
  have hk := rowsKnown_reached hinj hreached
  have hobject := catalogObject_apply env key source stat w
  have htreat := treatListing_apply env hw.quiet hs workers key stat
  rw [hs.intendedKey w.clock 0] at hobject htreat
  rcases htrusted : trustedDims (source.intendedKey 0 key) key with _ | ⟨dims, effKey⟩
  · rw [htrusted] at hobject htreat
    refine pathsAgree_of_sameEnd (v := w.tickClock) (m := recordFailure env key (py "unparseable key") >>= fun _ =>
      commit >>= fun _ => pure ⟨.failed, py "unparseable key"⟩) ?_ ?_
    · rw [hobject]
      exact ⟨rfl, SameStored.refl _⟩
    · rw [htreat]
      simp only [bind_bind]
      rfl
  · rw [htrusted] at hobject htreat
    have hgone : ¬Gone source key stat := fun hg => h ⟨by rw [htrusted]; rfl, hg⟩
    have hw1 : WorldInv env w.tickClock := (Act.tick w).worldInv hw
    have hw3 : WorldInv env w.tickClock.tickClock.tickClock :=
      (Act.tick _).worldInv ((Act.tick w.tickClock).worldInv hw1)
    have hk1 : RowsKnown w.tickClock := rowsKnown_act (Act.tick w : Act env w _) hk
    dsimp only at hobject htreat
    by_cases hskip : storedEtag w dims = some stat.etag
    · -- The row is there, so its identity was resolved and its key binds.
      rw [if_pos hskip] at htreat
      obtain ⟨fkey, hids, hetag⟩ := Option.bind_eq_some_iff.mp hskip
      obtain ⟨ids, hcached, rfl⟩ := Option.map_eq_some_iff.mp hids
      obtain ⟨r, hfind, _⟩ := Option.map_eq_some_iff.mp hetag
      obtain ⟨hmem, hkey⟩ := Table.find_eq_some_iff.mp hfind
      have hbinds : bindError (compositeParams dims) = none := by
        have hrow := hk.working r hmem
        rw [KeyBinds, hkey] at hrow
        exact hrow
      have hresolve := resolveIds_cached hw1.quiet (w := w.tickClock) hcached
      have hrun : catalogObject env key source (some stat) w = (.ok ⟨.skipped, []⟩, w.tickClock.commitWorking) := by
        rw [hobject, bind_of_ok hresolve, catalogResolved, bind_of_ok (query_ok hw1.quiet.commitWorking hbinds _)]
        rw [if_pos (show (w.tickClock.commitWorking.conn.working.files.find (ids.key dims)).map _ = some stat.etag
          from hetag)]
        rfl
      rw [PathsAgree, hrun, htreat]
      exact ⟨rfl, SameStored.refl _⟩
    · rw [if_neg hskip] at htreat
      refine pathsAgree_of_sameEnd (v := w.tickClock.tickClock.tickClock) ?_ htreat
      rw [hobject]
      refine sameEnd_applied hinj hs hgone hw1 hw3 ⟨SameRows.refl _, SameRows.refl _, rfl, rfl⟩ fun ids u hr => ?_
      rw [storedEtag_eq hw1 hk1 hr]
      exact hskip

/-- **An object that vanishes** is quarantined by `catalog_object` on an empty catalog; the other path leaves no trace. -/
theorem not_pathsAgree_of_vanishes (hinj : FingerprintInjective env) {source : Source} (hs : source.Unchanging)
    {key : PyStr} {stat : Stat} (h : Vanishes source key stat) (t : ℕ) :
    ¬PathsAgree env source .one key stat (viewing Db.empty Db.empty t) := by
  intro ⟨hstatus, hrows⟩
  obtain ⟨htrusted, ⟨e, hread⟩, hstat⟩ := h
  obtain ⟨⟨dims, effKey⟩, htrusted⟩ := Option.isSome_iff_exists.mp htrusted
  have hextract : extracted source ⟨key, stat, dims, effKey⟩ = ⟨key, stat, some dims, effKey, .vanished⟩ := by
    rw [extracted, Job.extract, extractSummary, hread, hstat]
  have htreat : treatListing env source .one ⟨key, stat⟩ (viewing Db.empty Db.empty t) =
      (.ok (Tally.zero.add .failed), (viewing Db.empty Db.empty t).tickClock.tickClock.tickClock) := by
    rw [treatListing_apply env viewing_quiet hs]
    rw [hs.intendedKey _ 0, htrusted]
    dsimp only
    have hstored : storedEtag (viewing Db.empty Db.empty t) dims = none := rfl
    rw [hextract, hstored]
    rfl
  have hobject := refines_catalogObject hinj (catalogInv_empty env) key source (some stat) t
  rw [catalogObjectEffect, catalogEffect, hs.intendedKey t 0, htrusted, readSummary_unchanging hs, hread] at hobject
  dsimp only at hobject
  rcases hnames : (bindError (nameParams dims)).or (bindError (compositeParams dims)) with _ | e'
  · rw [hnames] at hobject
    dsimp only at hobject
    have hfile : (view Db.empty).files dims = none := rfl
    rw [hfile, if_neg (by simp)] at hobject
    rcases hquarantine : quarantineError dims effKey e.errorText with _ | e'
    · rw [hquarantine] at hobject
      obtain ⟨db', t', hrun, hstep⟩ := hobject
      have hrecorded : failureText db' effKey = some e.errorText := by
        have hview := congrArg (fun c => c.failures effKey) hstep.view
        exact hview.trans (Function.update_self _ _ _)
      have hsame := hrows.failures effKey
      rw [hrun, htreat] at hsame
      exact absurd (hrecorded.symm.trans hsame) (by simp [failureText, viewing, World.tickClock, Db.empty])
    · rw [hquarantine] at hobject
      obtain ⟨w', hrun⟩ := hobject
      rw [hrun, htreat] at hstatus
      cases hstatus
  · rw [hnames] at hobject
    obtain ⟨w', hrun⟩ := hobject
    rw [hrun, htreat] at hstatus
    cases hstatus

/-- **The two paths agree on every reached catalog, however the summaries are read, exactly when the object does not
vanish.** -/
theorem pathsAgree_iff (hinj : FingerprintInjective env) {source : Source} (hs : source.Unchanging) (key : PyStr)
    (stat : Stat) :
    (∀ w, Reached env w → ∀ workers, PathsAgree env source workers key stat w) ↔ ¬Vanishes source key stat := by
  constructor
  · intro hagree hvanishes
    have hempty : Reached env (viewing Db.empty Db.empty 0) := opened_eq Db.empty 0 ▸ Reached.empty 0
    exact not_pathsAgree_of_vanishes hinj hs hvanishes 0 (hagree _ hempty .one)
  · intro hstays w hw workers
    exact pathsAgree_of_not_vanishes hinj hs hstays hw workers

theorem unchanging_bucket (bucket : Bucket) : (s3Source (fun _ => bucket) []).Unchanging :=
  ⟨fun _ _ => rfl, fun _ _ => rfl, fun _ _ => rfl, fun _ _ => rfl⟩

/-- A fingerprint taken before. -/
def earlierStat : Stat := ⟨100, py "abc", 5⟩

theorem pathsAgree_iff_bucketOf :
    PathsAgree oneTopicEnv (s3Source (fun _ => bucketOf earlierKey) []) .one earlierKey earlierStat earlierCataloged := by
  refine (pathsAgree_iff fingerprintInjective_oneTopicEnv (unchanging_bucket (bucketOf earlierKey)) earlierKey
    earlierStat).mpr ?_ earlierCataloged ?_ .one
  · intro ⟨_, _, hgone⟩
    have hthere : (s3Source (fun _ => bucketOf earlierKey) []).stat 0 earlierKey = .ok (some earlierStat) := by
      decide +kernel
    rw [hgone] at hthere
    cases hthere
  · exact (Reached.empty 0).call (.catalogObject earlierKey (s3Source (fun _ => bucketOf earlierKey) []) none)

/-- The object is deleted between its listing and the read of its summary. -/
theorem vanished_not_pathsAgree :
    Reached oneTopicEnv (viewing Db.empty Db.empty 0) ∧
      ¬PathsAgree oneTopicEnv (s3Source (fun _ => ∅) []) .one earlierKey earlierStat (viewing Db.empty Db.empty 0) := by
  have htrusted : (trustedDims none earlierKey).isSome = true := by decide +kernel
  refine ⟨opened_eq Db.empty 0 ▸ Reached.empty 0, ?_⟩
  exact not_pathsAgree_of_vanishes fingerprintInjective_oneTopicEnv (unchanging_bucket ∅)
    ⟨htrusted, ⟨noSuchKey, rfl⟩, rfl⟩ 0

end McapCatalog.Reconcile
