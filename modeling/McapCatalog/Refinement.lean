import McapCatalog.Logical

/-!
# The operations refine their effects

Each operation of the builder, from a freshly opened catalog, either raises or leads to a freshly opened catalog
again, by a change that refines one effect on the logical catalog.  Which of the two, the status and the effect are
functions of the operation's input alone, but for the etag comparison of the event path.

* `writeEffect`, `effectOf` — those functions for `_write_file_row` and `apply_extract`;
* `Refines` — the statement of a refinement;
* `refines_applyExtract`, `refines_catalogObject`, `refines_deleteByKey` — **the operations**.
-/

namespace McapCatalog.Builder

open McapCatalog.PyText McapCatalog.PyError McapCatalog.KeyParse McapCatalog.McapSummary
open McapCatalog.Storage McapCatalog.Tables McapCatalog.RowidTable McapCatalog.KeyedRows
open McapCatalog.Connection McapCatalog.CatalogDb
open McapCatalog.SurvivingState McapCatalog.SurvivingState.Comp

/-! ### What an operation comes to -/

/-- Nothing goes wrong, or the first error is raised. -/
def unlessError {α : Type} (error : Option PyErr) (a : α) : Except PyErr α :=
  match error with
  | some e => .error e
  | none => .ok a

/-- What a quarantine raises. -/
def quarantineError (dims : Dims) (effKey text : PyStr) : Option PyErr :=
  (bindError (compositeParams dims)).or (failureError effKey text)

/-- What `_write_file_row` comes to once the identity has its key. -/
def writeEffect (written : Written) : Except PyErr (CatalogResult × Effect) :=
  match transactionError true written with
  | none => .ok (⟨.cataloged, []⟩, .write written)
  | some e => unlessError (quarantineError written.dims written.effKey e.errorText)
      (⟨.failed, e.str⟩, .quarantine written.dims written.effKey e.errorText)

/-- What `apply_extract` comes to. -/
def effectOf (ex : Extract) : Except PyErr (CatalogResult × Effect) :=
  match ex.outcome, ex.dims with
  | .vanished, _ => .ok (⟨.failed, py "vanished"⟩, .nothing)
  | .unparseable _, _ => unlessError (failureError ex.key (unparseableText ex.outcome))
      (⟨.failed, unparseableText ex.outcome⟩, .failure ex.key (unparseableText ex.outcome))
  | _, none => unlessError (failureError ex.key (unparseableText ex.outcome))
      (⟨.failed, unparseableText ex.outcome⟩, .failure ex.key (unparseableText ex.outcome))
  | .error text, some dims =>
    unlessError ((bindError (nameParams dims)).or (quarantineError dims ex.effKey text))
      (⟨.failed, text⟩, .quarantine dims ex.effKey text)
  | .ready summary, some dims =>
    match bindError (nameParams dims) with
    | some e => .error e
    | none => writeEffect ⟨dims, ex.effKey, ex.stat, summary⟩

/-- From the opened database, the call raises as `outcome` says, or returns and refines its effect. -/
def Refines {α : Type} (env : Env) (db : Db) (t : ℕ) (m : Py α) (outcome : Except PyErr (α × Effect)) : Prop :=
  match outcome with
  | .error e => ∃ w', m (viewing db db t) = (.error e, w')
  | .ok (a, effect) => ∃ db' t', m (viewing db db t) = (.ok a, viewing db' db' t') ∧ EffectStep env effect db db'

variable {env : Env} {db : Db} {t : ℕ} {α : Type}

theorem refines_error {m : Py α} {e : PyErr} {w' : Connection.World} (h : m (viewing db db t) = (.error e, w')) :
    Refines env db t m (.error e) := ⟨w', h⟩

theorem refines_ok {m : Py α} {a : α} {effect : Effect} {db' : Db} {t' : ℕ}
    (h : m (viewing db db t) = (.ok a, viewing db' db' t')) (hs : EffectStep env effect db db') :
    Refines env db t m (.ok (a, effect)) := ⟨db', t', h, hs⟩

/-- An operation that first moves to another opened catalog by new dimension rows. -/
theorem Refines.after {m m' : Py α} {outcome : Except PyErr (α × Effect)} {db' : Db} {t' : ℕ}
    (h : Refines env db' t' m' outcome) (hinv : CatalogInv env db) (ho : OnlyDims db db')
    (hrun : m (viewing db db t) = m' (viewing db' db' t')) : Refines env db t m outcome := by
  rcases outcome with e | ⟨a, effect⟩
  · obtain ⟨w', hw⟩ := h
    exact ⟨w', hrun.trans hw⟩
  · obtain ⟨db₂, t₂, hw, hs⟩ := h
    exact ⟨db₂, t₂, hrun.trans hw, hs.after_onlyDims hinv ho⟩

/-! ### The commits -/

theorem refines_recordFailure (hinv : CatalogInv env db) (key text : PyStr) (a : α) (t : ℕ) :
    Refines env db t (recordFailure env key text >>= fun _ => commit >>= fun _ => pure a)
      (unlessError (failureError key text) (a, .failure key text)) := by
  rcases hf : failureError key text with _ | e
  · have hrun : (recordFailure env key text >>= fun _ => commit >>= fun _ => pure a : Py α) (viewing db db t) =
        (.ok a, viewing (Db.upsertFailure key (env.timeNs t) text db)
          (Db.upsertFailure key (env.timeNs t) text db) (t + 1)) := by
      rw [bind_of_ok (recordFailure_ok viewing_quiet hf)]
      exact bind_of_ok (commit_quiet viewing_quiet)
    exact refines_ok hrun (effectStep_failure hinv key (env.timeNs t) text)
  · exact refines_error (bind_of_error (recordFailure_error viewing_quiet hf))

theorem refines_quarantineExisting (hinv : CatalogInv env db) {ids : Ids} {dims : Dims}
    (hkey : fileKey db dims = some (ids.key dims)) (effKey text : PyStr) (a : α) (t : ℕ) :
    Refines env db t (quarantineExisting env ids dims effKey text >>= fun _ => pure a)
      (unlessError (quarantineError dims effKey text) (a, .quarantine dims effKey text)) := by
  rcases he : quarantineError dims effKey text with _ | e
  · obtain ⟨hc, hf⟩ := Option.or_eq_none_iff.mp he
    have hrun : (quarantineExisting env ids dims effKey text >>= fun _ => pure a : Py α) (viewing db db t) =
        (.ok a, viewing (quarantined (ids.key dims) effKey (env.timeNs t) text db)
          (quarantined (ids.key dims) effKey (env.timeNs t) text db) (t + 1)) := by
      rw [bind_of_ok (quarantineExisting_ok viewing_quiet ids hc hf)]
      rfl
    exact refines_ok hrun (effectStep_quarantined hinv hkey effKey (env.timeNs t) text)
  · obtain ⟨w', hrun, _⟩ := quarantineExisting_error env viewing_quiet ids (w := viewing db db t) he
    exact refines_error (bind_of_error hrun)

theorem idsPresent_of_fileKey {ids : Ids} {dims : Dims} (h : fileKey db dims = some (ids.key dims)) :
    idsPresent db ids = true := by
  obtain ⟨hc, hs, hr, hx, _⟩ := fileKey_eq_some_iff.mp h
  simp only [idsPresent, Db.references, Bool.and_eq_true]
  exact ⟨⟨⟨isSome_get_of_idOf hc, isSome_get_of_idOf hs⟩, isSome_get_of_idOf hr⟩, isSome_get_of_idOf hx⟩

/-- **`_write_file_row`.** -/
theorem refines_writeFileRow (hinj : FingerprintInjective env) (hinv : CatalogInv env db) {ids : Ids}
    {written : Written} (hkey : fileKey db written.dims = some (ids.key written.dims)) (t : ℕ) :
    Refines env db t (writeFileRow env ids written) (writeEffect written) := by
  have hids := idsPresent_of_fileKey hkey
  rw [writeEffect]
  rcases he : transactionError true written with _ | e
  · have he' : transactionError (idsPresent (viewing db db t).conn.working ids) written = none := by
      rw [← he, ← hids]
      rfl
    obtain ⟨db', hrun, hw⟩ := writeFileRow_cataloged hinj viewing_quiet viewing_topicsExact hinv.topics he'
    have hcaches : Caches.of db' = { Caches.of db with
        topic := db'.topicNames.idOf, schema := db'.schemas.idOf, topicSet := db'.topicSets.idOf } := by
      rw [Caches.of, hw.customers, hw.sites, hw.robots, hw.sources]
      rfl
    have hworld : (onTopics (viewing db db t).tickClock db').commitWorking = viewing db' db' (t + 1) := by
      show _ = (⟨_, Caches.of db', _⟩ : Connection.World)
      rw [hcaches]
      rfl
    rw [hworld] at hrun
    exact refines_ok hrun (effectStep_wrote hinv hids hkey hw)
  · have he' : transactionError (idsPresent (viewing db db t).conn.working ids) written = some e := by
      rw [← he, ← hids]
      rfl
    simp only
    rcases hq : quarantineError written.dims written.effKey e.errorText with _ | e'
    · obtain ⟨hc, hf⟩ := Option.or_eq_none_iff.mp hq
      obtain ⟨now, t', hrun⟩ := writeFileRow_failed hinj viewing_quiet viewing_topicsExact rfl hinv.topics he' hc hf
      exact refines_ok hrun (effectStep_quarantined hinv hkey _ now _)
    · obtain ⟨w', hrun, _⟩ := writeFileRow_raises hinj viewing_quiet viewing_topicsExact rfl hinv.topics he' hq
      exact refines_error hrun

/-! ### Extracts -/

theorem refines_applyUnparseable (hinv : CatalogInv env db) (ex : Extract) (t : ℕ) :
    Refines env db t (applyUnparseable env ex) (unlessError (failureError ex.key (unparseableText ex.outcome))
      (⟨.failed, unparseableText ex.outcome⟩, .failure ex.key (unparseableText ex.outcome))) :=
  refines_recordFailure hinv ex.key (unparseableText ex.outcome) _ t

/-- **`apply_extract`.** -/
theorem refines_applyExtract (hinj : FingerprintInjective env) (hinv : CatalogInv env db) (ex : Extract) (t : ℕ) :
    Refines env db t (applyExtract env ex) (effectOf ex) := by
  obtain ⟨key, stat, dims, effKey, outcome⟩ := ex
  cases outcome with
  | vanished => exact refines_ok rfl (EffectStep.refl hinv)
  | unparseable text => exact refines_applyUnparseable hinv _ t
  | error text =>
      cases dims with
      | none => exact refines_applyUnparseable hinv _ t
      | some dims =>
          have hr := resolveIds_viewing hinv dims db t
          show Refines env db t _ (unlessError ((bindError (nameParams dims)).or _) _)
          rcases hb : bindError (nameParams dims) with _ | e
          · rw [hb] at hr
            obtain ⟨ids, db', hrun, ho, hkey⟩ := hr
            exact (refines_quarantineExisting (hinv.onlyDims ho) hkey effKey text _ t).after hinv ho
              (bind_of_ok hrun)
          · rw [hb] at hr
            obtain ⟨_, hrun, _⟩ := hr
            exact refines_error (bind_of_error hrun)
  | ready summary =>
      cases dims with
      | none => exact refines_applyUnparseable hinv _ t
      | some dims =>
          have hr := resolveIds_viewing hinv dims db t
          have hwrite : ∀ ids db', OnlyDims db db' → fileKey db' dims = some (ids.key dims) →
              Refines env db' t (writeFileRow env ids ⟨dims, effKey, stat, summary⟩)
                (writeEffect ⟨dims, effKey, stat, summary⟩) := fun ids db' ho hkey =>
            refines_writeFileRow hinj (hinv.onlyDims ho) hkey t
          show Refines env db t
            (resolveIds dims >>= fun ids => writeFileRow env ids ⟨dims, effKey, stat, summary⟩)
            (match bindError (nameParams dims) with
              | some e => .error e
              | none => writeEffect ⟨dims, effKey, stat, summary⟩)
          rcases hb : bindError (nameParams dims) with _ | e
          · rw [hb] at hr
            obtain ⟨ids, db', hrun, ho, hkey⟩ := hr
            exact (hwrite ids db' ho hkey).after hinv ho (bind_of_ok hrun)
          · rw [hb] at hr
            obtain ⟨_, hrun, _⟩ := hr
            exact refines_error (bind_of_error hrun)

/-- From any opened catalog, with or without a pending change, the call raises as `outcome` says, or returns and refines
its effect. -/
def RefinesFrom {α : Type} (env : Env) (committed db : Db) (t : ℕ) (m : Py α) (outcome : Except PyErr (α × Effect)) :
    Prop :=
  match outcome with
  | .error e => ∃ w', m (viewing committed db t) = (.error e, w')
  | .ok (a, effect) => ∃ committed' db' t', m (viewing committed db t) = (.ok a, viewing committed' db' t') ∧
      EffectStep env effect db db'

/-- A call that comes to the same as one after new dimension rows, which have been committed. -/
theorem Refines.pending {m m' : Py α} {outcome : Except PyErr (α × Effect)} {committed db' : Db} {t' : ℕ}
    (h : Refines env db' t' m' outcome) (hinv : CatalogInv env db) (ho : OnlyDims db db')
    (hrun : m (viewing committed db t) = m' (viewing db' db' t')) : RefinesFrom env committed db t m outcome := by
  rcases outcome with e | ⟨a, effect⟩
  · obtain ⟨w', hw⟩ := h
    exact ⟨w', hrun.trans hw⟩
  · obtain ⟨db₂, t₂, hw, hs⟩ := h
    exact ⟨db₂, db₂, t₂, hrun.trans hw, hs.after_onlyDims hinv ho⟩

/-- **`apply_extract`**, with or without a pending change. -/
theorem refinesFrom_applyExtract (hinj : FingerprintInjective env) (hinv : CatalogInv env db) (ex : Extract)
    (committed : Db) (t : ℕ) : RefinesFrom env committed db t (applyExtract env ex) (effectOf ex) := by
  obtain ⟨key, stat, dims, effKey, outcome⟩ := ex
  have hunparseable : ∀ ex : Extract, RefinesFrom env committed db t (applyUnparseable env ex)
      (unlessError (failureError ex.key (unparseableText ex.outcome))
        (⟨.failed, unparseableText ex.outcome⟩, .failure ex.key (unparseableText ex.outcome))) := by
    intro ex
    rcases hf : failureError ex.key (unparseableText ex.outcome) with _ | e
    · have hstep := effectStep_failure hinv ex.key (env.timeNs t) (unparseableText ex.outcome)
      refine ⟨Db.upsertFailure ex.key (env.timeNs t) (unparseableText ex.outcome) db, _, t + 1, ?_, hstep⟩
      exact (bind_of_ok (recordFailure_ok viewing_quiet hf)).trans (bind_of_ok (commit_quiet viewing_quiet))
    · exact ⟨_, bind_of_error (recordFailure_error viewing_quiet hf)⟩
  cases outcome with
  | vanished => exact ⟨committed, db, t, rfl, EffectStep.refl hinv⟩
  | unparseable text => exact hunparseable _
  | error text =>
      cases dims with
      | none => exact hunparseable _
      | some dims =>
          have hr := resolveIds_viewing hinv dims committed t
          show RefinesFrom env committed db t _ (unlessError ((bindError (nameParams dims)).or _) _)
          rcases hb : bindError (nameParams dims) with _ | e
          · rw [hb] at hr
            obtain ⟨ids, db', hrun, ho, hkey⟩ := hr
            exact (refines_quarantineExisting (hinv.onlyDims ho) hkey effKey text _ t).pending hinv ho (bind_of_ok hrun)
          · rw [hb] at hr
            obtain ⟨_, hrun, _⟩ := hr
            exact ⟨_, bind_of_error hrun⟩
  | ready summary =>
      cases dims with
      | none => exact hunparseable _
      | some dims =>
          have hr := resolveIds_viewing hinv dims committed t
          show RefinesFrom env committed db t
            (resolveIds dims >>= fun ids => writeFileRow env ids ⟨dims, effKey, stat, summary⟩)
            (match bindError (nameParams dims) with
              | some e => .error e
              | none => writeEffect ⟨dims, effKey, stat, summary⟩)
          rcases hb : bindError (nameParams dims) with _ | e
          · rw [hb] at hr
            obtain ⟨ids, db', hrun, ho, hkey⟩ := hr
            have hwrite : Refines env db' t (writeFileRow env ids ⟨dims, effKey, stat, summary⟩)
                (writeEffect ⟨dims, effKey, stat, summary⟩) := refines_writeFileRow hinj (hinv.onlyDims ho) hkey t
            exact hwrite.pending hinv ho (bind_of_ok hrun)
          · rw [hb] at hr
            obtain ⟨_, hrun, _⟩ := hr
            exact ⟨_, bind_of_error hrun⟩

/-! ### The event path -/

theorem ask_apply (answer : ℕ → Except PyErr α) (w : Connection.World) :
    ask answer w = (answer w.clock, w.tickClock) := by
  rw [ask, bind_of_ok (tick_apply w)]
  cases answer w.clock <;> rfl

/-- What `catalog_object` comes to once the fingerprint is known, at the moment `t`. -/
def catalogEffect (key : PyStr) (source : Source) (stat : Stat) (c : Logical) (t : ℕ) :
    Except PyErr (CatalogResult × Effect) :=
  match trustedDims (source.intendedKey t key) key with
  | none => unlessError (failureError key (py "unparseable key"))
      (⟨.failed, py "unparseable key"⟩, .failure key (py "unparseable key"))
  | some (dims, effKey) =>
    match (bindError (nameParams dims)).or (bindError (compositeParams dims)) with
    | some e => .error e
    | none =>
      if (c.files dims).map (fun written => written.stat.etag) = some stat.etag then
        .ok (⟨.skipped, []⟩, .nothing)
      else
        match source.readSummary (t + 1) key stat.size with
        | .error e => unlessError (quarantineError dims effKey e.errorText)
            (⟨.failed, e.str⟩, .quarantine dims effKey e.errorText)
        | .ok summary => writeEffect ⟨dims, effKey, stat, summary⟩

/-- What `catalog_object` comes to. -/
def catalogObjectEffect (key : PyStr) (source : Source) (stat : Option Stat) (c : Logical) (t : ℕ) :
    Except PyErr (CatalogResult × Effect) :=
  match stat with
  | some stat => catalogEffect key source stat c t
  | none =>
    match source.stat t key with
    | .error e => .error e
    | .ok none => .ok (⟨.failed, py "vanished"⟩, .nothing)
    | .ok (some stat) => catalogEffect key source stat c (t + 1)

/-- The stored etag is the one the row was written with. -/
theorem etag_of_rowOf (hinv : CatalogInv env db) {ids : Ids} {dims : Dims}
    (hkey : fileKey db dims = some (ids.key dims)) :
    (db.files.find (ids.key dims)).map (fun r => r.val.etag) =
      ((view db).files dims).map fun written => written.stat.etag := by
  show _ = ((rowOf db dims).map _).map _
  rw [rowOf_of_fileKey hkey, Option.map_map]
  rcases hf : db.files.find (ids.key dims) with _ | r
  · rfl
  · have hcols := hinv.columns r (Table.find_eq_some_iff.mp hf).1
    show some r.val.etag = some r.val.origin.stat.etag
    rw [hcols]
    rfl

theorem refines_catalogWithStat (hinj : FingerprintInjective env) (hinv : CatalogInv env db) (key : PyStr)
    (source : Source) (stat : Stat) (t : ℕ) :
    Refines env db t (catalogWithStat env key source stat) (catalogEffect key source stat (view db) t) := by
  have hdims : resolveKeyDims key source (viewing db db t) =
      (.ok (trustedDims (source.intendedKey t key) key), viewing db db (t + 1)) := rfl
  rw [catalogEffect]
  rcases htrusted : trustedDims (source.intendedKey t key) key with _ | ⟨dims, effKey⟩
  · rw [htrusted] at hdims
    exact (refines_recordFailure hinv key (py "unparseable key") _ (t + 1)).after hinv (OnlyDims.refl db)
      (bind_of_ok hdims)
  rw [htrusted] at hdims
  have hr := resolveIds_viewing hinv dims db (t + 1)
  simp only
  rcases hb : bindError (nameParams dims) with _ | e
  case some =>
    rw [hb] at hr
    obtain ⟨_, hrun, _⟩ := hr
    exact refines_error ((bind_of_ok hdims).trans (bind_of_error hrun))
  rw [hb] at hr
  obtain ⟨ids, db', hrun, ho, hkey⟩ := hr
  have hinv' := hinv.onlyDims ho
  rw [Option.none_or]
  have hstart : catalogWithStat env key source stat (viewing db db t) = _ :=
    (bind_of_ok hdims).trans (bind_of_ok hrun)
  rcases hc : bindError (compositeParams dims) with _ | e
  case some =>
    exact refines_error (hstart.trans (bind_of_error (query_unbound viewing_quiet hc _)))
  have hquery := hstart.trans (bind_of_ok (query_ok viewing_quiet hc _))
  have hetag : (db'.files.find (ids.key dims)).map (fun r => r.val.etag) =
      ((view db).files dims).map fun written => written.stat.etag := by
    rw [etag_of_rowOf hinv' hkey, view_onlyDims hinv ho]
  simp only
  rw [show (viewing db' db' (t + 1)).conn.working = db' from rfl, hetag] at hquery
  by_cases hsame : ((view db).files dims).map (fun written => written.stat.etag) = some stat.etag
  · rw [if_pos hsame] at hquery ⊢
    exact refines_ok hquery (effectStep_onlyDims hinv ho)
  rw [if_neg hsame] at hquery ⊢
  have hask : attempt (ask fun t => source.readSummary t key stat.size) (viewing db' db' (t + 1)) =
      (.ok (source.readSummary (t + 1) key stat.size), viewing db' db' (t + 2)) := by
    rw [attempt_apply, ask_apply]
    rfl
  have hread := hquery.trans (bind_of_ok hask)
  rcases hsummary : source.readSummary (t + 1) key stat.size with e | summary
  · rw [hsummary] at hread
    exact (refines_quarantineExisting hinv' hkey effKey e.errorText _ (t + 2)).after hinv ho hread
  · rw [hsummary] at hread
    have hwrite : Refines env db' (t + 2) (writeFileRow env ids ⟨dims, effKey, stat, summary⟩)
        (writeEffect ⟨dims, effKey, stat, summary⟩) := refines_writeFileRow hinj hinv' hkey (t + 2)
    exact hwrite.after hinv ho hread

/-- **`catalog_object`.** -/
theorem refines_catalogObject (hinj : FingerprintInjective env) (hinv : CatalogInv env db) (key : PyStr)
    (source : Source) (stat : Option Stat) (t : ℕ) :
    Refines env db t (catalogObject env key source stat)
      (catalogObjectEffect key source stat (view db) t) := by
  cases stat with
  | some stat =>
      exact (refines_catalogWithStat hinj hinv key source stat t).after hinv (OnlyDims.refl db) rfl
  | none =>
      have hask : ask (fun t => source.stat t key) (viewing db db t) =
          (source.stat t key, viewing db db (t + 1)) := ask_apply _ _
      rw [catalogObjectEffect]
      rcases hstat : source.stat t key with e | found
      · rw [hstat] at hask
        exact refines_error (bind_of_error hask)
      · rw [hstat] at hask
        cases found with
        | none => exact refines_ok (bind_of_ok hask) (EffectStep.refl hinv)
        | some stat =>
            exact (refines_catalogWithStat hinj hinv key source stat (t + 1)).after hinv (OnlyDims.refl db)
              (bind_of_ok hask)

/-- What `delete_by_key` comes to: nothing if the identity was never given a key. -/
def deleteEffect (key : PyStr) (db : Db) : Except PyErr (Bool × Effect) :=
  match parseHiveKey key with
  | none => .ok (false, .nothing)
  | some dims =>
    match fileKey db dims with
    | none => .ok (false, .nothing)
    | some _ => unlessError ((bindError (compositeParams dims)).or (bindError [.text key]))
        (((view db).files dims).isSome, .delete dims key)

/-- **`delete_by_key`.** -/
theorem refines_deleteByKey (hinv : CatalogInv env db) (key : PyStr) (t : ℕ) :
    Refines env db t (deleteByKey key) (deleteEffect key db) := by
  rw [deleteByKey, deleteEffect]
  rcases hparse : parseHiveKey key with _ | dims
  · exact refines_ok rfl (EffectStep.refl hinv)
  have hlook : (look : Py Connection.World) (viewing db db t) = (.ok (viewing db db t), viewing db db t) := rfl
  refine Refines.after (t := t) ?_ hinv (OnlyDims.refl db) (bind_of_ok hlook)
  simp only [show (viewing db db t).caches = Caches.of db from rfl]
  rcases hids : cachedIds (Caches.of db) dims with _ | ids
  · rw [show fileKey db dims = none by rw [fileKey, Reconcile.compositeIds, hids]; rfl]
    exact refines_ok rfl (EffectStep.refl hinv)
  have hkey : fileKey db dims = some (ids.key dims) := by
    rw [fileKey, Reconcile.compositeIds, hids]
    rfl
  simp only [hkey]
  rcases hc : bindError (compositeParams dims) with _ | e
  · have hfound : (db.files.find (ids.key dims)).isSome = ((view db).files dims).isSome := by
      show _ = ((rowOf db dims).map _).isSome
      rw [rowOf_of_fileKey hkey, Option.isSome_map]
    have hdelete : statement (compositeParams dims) (fun db =>
          .ok ((db.files.find (ids.key dims)).isSome, db.deleteFiles fun r => r.key = ids.key dims))
        (viewing db db t) = (.ok ((view db).files dims).isSome,
          viewing db (db.deleteFiles fun r => r.key = ids.key dims) t) := by
      rw [statement_quiet viewing_quiet, hc, ← hfound]
      rfl
    rw [Option.none_or]
    rcases hk : bindError [.text key] with _ | e
    · refine ⟨_, t, ?_, effectStep_deleted hinv hkey key⟩
      refine (bind_of_ok hdelete).trans ((bind_of_ok (execute_ok viewing_quiet hk _)).trans ?_)
      exact bind_of_ok (commit_quiet viewing_quiet)
    · exact refines_error ((bind_of_ok hdelete).trans (bind_of_error (execute_unbound viewing_quiet hk _)))
  · exact refines_error (bind_of_error (statement_unbound viewing_quiet hc _))

end McapCatalog.Builder
