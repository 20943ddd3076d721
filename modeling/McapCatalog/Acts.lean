import McapCatalog.CatalogInvariant
import McapCatalog.Reconcile

/-!
# What a step of the builder can do to the world

Every call of the builder, returning or raising, moves the world along a path of the same few acts: a reading
of a clock, new dimension rows, a deletion of files, a change of the failure or build tables, a commit, a
committed file transaction, a reload of the caches.  Said once here, so that an invariant of the builder is
one case analysis.

* `Behind` — what an open transaction of the builder may hold back: new dimensions and deleted files;
* `WorldInv` — the invariant of the writer's world: both databases are well formed and the topic caches exact;
* `Act`, `Path` — the acts, and `Act.worldInv`: each keeps the invariant;
* `builds_catalogObject`, `builds_applyExtract`, `builds_deleteByKey`, `builds_fullReconcile` — **every entry
  point follows a path**, from any world with the invariant and whichever way it exits.
-/

namespace McapCatalog.Builder

open McapCatalog.PyText McapCatalog.PyError McapCatalog.KeyParse McapCatalog.McapSummary
open McapCatalog.Storage McapCatalog.Tables McapCatalog.RowidTable McapCatalog.KeyedRows
open McapCatalog.Connection McapCatalog.CatalogDb McapCatalog.Reconcile
open McapCatalog.SurvivingState McapCatalog.SurvivingState.Comp

/-! ### The invariant -/

/-- The connection's view is the committed database with new dimensions and without some files. -/
structure Behind (committed working : Db) : Prop where
  dims : DimsGrow committed working
  topicNames : working.topicNames = committed.topicNames
  schemas : working.schemas = committed.schemas
  topicSets : working.topicSets = committed.topicSets
  topicSetMembers : working.topicSetMembers = committed.topicSetMembers
  files : ∀ i r, working.files.get i = some r → committed.files.get i = some r
  overrides : ∀ i r, working.files.get i = some r →
    ∀ k, working.tagsOverride.lookup (i, k) = committed.tagsOverride.lookup (i, k)
  removed : ∀ i r, working.files.get i = some r → working.removed.count i = committed.removed.count i

theorem Behind.refl (db : Db) : Behind db db :=
  ⟨DimsGrow.refl db, rfl, rfl, rfl, rfl, fun _ _ h => h, fun _ _ _ _ => rfl, fun _ _ _ => rfl⟩

/-- The invariant of the writer's world. -/
structure WorldInv (env : Env) (w : World) : Prop where
  quiet : w.Quiet
  exact : TopicsExact w
  committed : CatalogInv env w.conn.committed
  working : CatalogInv env w.conn.working
  behind : Behind w.conn.committed w.conn.working

theorem topicsExact_iff {w : World} :
    TopicsExact w ↔ w.caches.topic = w.conn.working.topicNames.idOf ∧
      w.caches.schema = w.conn.working.schemas.idOf ∧ w.caches.topicSet = w.conn.working.topicSets.idOf := by
  constructor
  · intro h
    have hc := congrArg World.caches h
    exact ⟨(congrArg Caches.topic hc).symm, (congrArg Caches.schema hc).symm,
      (congrArg Caches.topicSet hc).symm⟩
  · rintro ⟨h1, h2, h3⟩
    have hcaches : ({ w.caches with
        topic := w.conn.working.topicNames.idOf
        schema := w.conn.working.schemas.idOf
        topicSet := w.conn.working.topicSets.idOf } : Caches) = w.caches := by
      rw [← h1, ← h2, ← h3]
    show World.setCaches (w.setWorking w.conn.working) _ = w
    rw [hcaches]
    rfl

/-- Every dimension row has its entry in the caches.  The converse fails once rows are rolled back. -/
structure DimsCached (db : Db) (caches : Caches) : Prop where
  customer : ∀ k i, db.customers.idOf k = some i → caches.customer k = some i
  site : ∀ k i, db.sites.idOf k = some i → caches.site k = some i
  robot : ∀ k i, db.robots.idOf k = some i → caches.robot k = some i
  source : ∀ k i, db.sources.idOf k = some i → caches.source k = some i

/-! ### The acts -/

/-- One act of the builder. -/
inductive Act (env : Env) : World → World → Prop where
  | tick (w : World) : Act env w w.tickClock
  | dims (w : World) {db' : Db} {caches : Caches} (h : OnlyDims w.conn.working db')
      (ht : caches.topic = w.caches.topic) (hs : caches.schema = w.caches.schema)
      (hx : caches.topicSet = w.caches.topicSet)
      (hcached : DimsCached w.conn.working w.caches → DimsCached db' caches) :
      Act env w ((w.setWorking db').setCaches caches)
  | delete (w : World) (p : Row FileKey FileCols → Bool) :
      Act env w (w.setWorking (w.conn.working.deleteFiles p))
  | failures (w : World) (failures : Rows PyStr (ℤ × PyStr)) (build : Option BuildRow) :
      Act env w (w.setWorking
        { w.conn.working with catalogFailures := failures, buildMetadata := build })
  | commit (w : World) : Act env w w.commitWorking
  | wrote (w : World) {ids : Ids} {written : Written} {db' : Db}
      (hsync : w.conn.working = w.conn.committed) (hids : idsPresent w.conn.working ids = true)
      (hw : Wrote env (ids.key written.dims) written w.conn.working db')
      (hbind : bindError (compositeParams written.dims) = none) :
      Act env w (onTopics w.tickClock db').commitWorking
  | reload (w : World) (t : ℕ) (hsync : w.conn.working = w.conn.committed) :
      Act env w ⟨w.conn, Caches.of w.conn.working, t⟩

variable {env : Env} {w w' : World}

theorem Behind.trans_onlyDims {committed working db' : Db} (h : Behind committed working)
    (ho : OnlyDims working db') : Behind committed db' := by
  obtain ⟨hg, c, s, r, x, rfl⟩ := ho
  exact ⟨h.dims.trans hg, h.topicNames, h.schemas, h.topicSets, h.topicSetMembers, h.files, h.overrides,
    h.removed⟩

theorem count_removed_deleteFiles (p : Row FileKey FileCols → Bool) (db : Db) (i : ℕ) :
    (db.deleteFiles p).removed.count i = (if goes p db i then 1 else 0) + db.removed.count i := by
  show ((db.files.rows.filter p).map Row.id ++ db.removed).count i = _
  rw [List.count_append]
  congr 1
  have hnd : ((db.files.rows.filter p).map Row.id).Nodup := by
    rw [List.Nodup, List.pairwise_map]
    exact (db.files.idOrder.filter p).imp fun h => Nat.ne_of_lt h
  cases hg : goes p db i with
  | true =>
      obtain ⟨r, hr, hp⟩ := List.any_eq_true.mp hg
      simp only [Bool.decide_and, Bool.decide_eq_true, Bool.and_eq_true, decide_eq_true_eq] at hp
      exact List.count_eq_one_of_mem hnd
        (List.mem_map.mpr ⟨r, List.mem_filter.mpr ⟨hr, hp.2⟩, hp.1⟩)
  | false =>
      apply List.count_eq_zero_of_not_mem
      intro hmem
      obtain ⟨r, hr, hid⟩ := List.mem_map.mp hmem
      obtain ⟨hr, hp⟩ := List.mem_filter.mp hr
      have := List.any_eq_false.mp hg r hr
      simp [hid, hp] at this

theorem Behind.trans_delete {committed working : Db} (h : Behind committed working)
    (p : Row FileKey FileCols → Bool) : Behind committed (working.deleteFiles p) := by
  have hstays : ∀ i r, (working.deleteFiles p).files.get i = some r →
      goes p working i = false ∧ working.files.get i = some r := by
    intro i r hr
    rw [get_deleteFiles] at hr
    cases hg : goes p working i with
    | true => rw [hg] at hr; cases hr
    | false => rw [hg] at hr; exact ⟨rfl, hr⟩
  refine ⟨h.dims.trans (DimsGrow.of_eq rfl rfl rfl rfl), h.topicNames, h.schemas, h.topicSets,
    h.topicSetMembers, fun i r hr => h.files i r (hstays i r hr).2, ?_, ?_⟩
  · intro i r hr k
    obtain ⟨hg, hr'⟩ := hstays i r hr
    rw [lookup_override_deleteFiles, hg]
    exact h.overrides i r hr' k
  · intro i r hr
    obtain ⟨hg, hr'⟩ := hstays i r hr
    rw [count_removed_deleteFiles, hg]
    simpa using h.removed i r hr'

/-- **Every act keeps the invariant.** -/
theorem Act.worldInv (h : Act env w w') (hi : WorldInv env w) : WorldInv env w' := by
  obtain ⟨h1, h2, h3⟩ := topicsExact_iff.mp hi.exact
  cases h with
  | tick => exact ⟨hi.quiet, topicsExact_iff.mpr ⟨h1, h2, h3⟩, hi.committed, hi.working, hi.behind⟩
  | dims ho ht hs hx _ =>
      refine ⟨hi.quiet, ?_, hi.committed, hi.working.onlyDims ho, hi.behind.trans_onlyDims ho⟩
      obtain ⟨_, c, s, r, x, rfl⟩ := ho
      exact topicsExact_iff.mpr ⟨ht.trans h1, hs.trans h2, hx.trans h3⟩
  | delete p =>
      exact ⟨hi.quiet, topicsExact_iff.mpr ⟨h1, h2, h3⟩, hi.committed, hi.working.deleteFiles p,
        hi.behind.trans_delete p⟩
  | failures f b =>
      exact ⟨hi.quiet, topicsExact_iff.mpr ⟨h1, h2, h3⟩, hi.committed, hi.working.failures f b,
        ⟨hi.behind.dims.trans (DimsGrow.of_eq rfl rfl rfl rfl), hi.behind.topicNames, hi.behind.schemas,
          hi.behind.topicSets, hi.behind.topicSetMembers, hi.behind.files, hi.behind.overrides,
          hi.behind.removed⟩⟩
  | commit =>
      exact ⟨hi.quiet, topicsExact_iff.mpr ⟨h1, h2, h3⟩, hi.working, hi.working,
        Behind.refl _⟩
  | wrote hsync hids hw _ =>
      have hinv := hi.working.wrote hids hw
      exact ⟨hi.quiet, topicsExact_iff.mpr ⟨rfl, rfl, rfl⟩, hinv, hinv, Behind.refl _⟩
  | reload t hsync =>
      exact ⟨hi.quiet, topicsExact_iff.mpr ⟨rfl, rfl, rfl⟩, hi.committed, hi.working, hi.behind⟩

/-- A path of acts. -/
def Path (env : Env) : World → World → Prop := Relation.ReflTransGen (Act env)

theorem Path.refl (w : World) : Path env w w := Relation.ReflTransGen.refl

theorem Path.trans {a b c : World} (h : Path env a b) (h' : Path env b c) : Path env a c :=
  Relation.ReflTransGen.trans h h'

theorem Act.path (h : Act env w w') : Path env w w' := Relation.ReflTransGen.single h

theorem Path.worldInv (h : Path env w w') (hi : WorldInv env w) : WorldInv env w' := by
  induction h with
  | refl => exact hi
  | tail _ ha ih => exact ha.worldInv ih

/-! ### Calls that follow a path -/

/-- From any world with the invariant, the call follows a path, whichever way it exits. -/
def Builds {α : Type} (env : Env) (m : Py α) : Prop := Within (WorldInv env) (Path env) m

section Rules

variable {α β : Type}

theorem builds_of_path {m : Py α} (h : ∀ w, WorldInv env w → Path env w (m w).2) : Builds env m :=
  fun w hw => ⟨(h w hw).worldInv hw, h w hw⟩

theorem builds_pure (a : α) : Builds env (pure a : Py α) := within_pure Path.refl a

theorem builds_raise (e : PyErr) : Builds env (raise e : Py α) := within_raise Path.refl e

theorem builds_look : Builds env (look : Py World) := within_look Path.refl

theorem Builds.bind {m : Py α} {f : α → Py β} (hm : Builds env m) (hf : ∀ a, Builds env (f a)) :
    Builds env (m >>= f) :=
  Within.bind (R := Path env) (fun _ _ _ h h' => h.trans h') hm hf

theorem Builds.attempt {m : Py α} (hm : Builds env m) : Builds env (Comp.attempt m) := Within.attempt hm

theorem Builds.foldEach {f : β → α → Py β} (h : ∀ b a, Builds env (f b a)) (as : List α) (b : β) :
    Builds env (Comp.foldEach f b as) :=
  Within.foldEach (R := Path env) Path.refl (fun _ _ _ h h' => h.trans h') h as b

theorem builds_tick : Builds env tick := builds_of_path fun w _ => (Act.tick w).path

theorem builds_ask (answer : ℕ → Except PyErr α) : Builds env (ask answer) :=
  builds_tick.bind fun t => by
    cases answer t with
    | ok a => exact builds_pure a
    | error e => exact builds_raise e

theorem builds_resolveKeyDims (key : PyStr) (source : Source) : Builds env (resolveKeyDims key source) :=
  builds_tick.bind fun _ => builds_pure _

/-- A statement either leaves the world alone or changes the connection's view by an act. -/
theorem builds_statement (params : List Param) {run : Db → Except PyErr (α × Db)}
    (h : ∀ w, WorldInv env w → ∀ a db, run w.conn.working = .ok (a, db) → Act env w (w.setWorking db)) :
    Builds env (statement params run) := by
  refine builds_of_path fun w hw => ?_
  rw [statement_quiet hw.quiet]
  cases bindError params with
  | some e => exact Path.refl w
  | none =>
      rcases hrun : run w.conn.working with e | ⟨a, db⟩
      · exact Path.refl w
      · exact (h w hw a db hrun).path

theorem builds_execute (params : List Param) {run : Db → Db}
    (h : ∀ w, WorldInv env w → Act env w (w.setWorking (run w.conn.working))) :
    Builds env (execute params run) :=
  builds_statement params fun w hw a db hrun => by
    cases hrun
    exact h w hw

theorem builds_query (params : List Param) (read : Db → α) : Builds env (query params read) := by
  refine builds_of_path fun w hw => ?_
  rw [query, statement_quiet hw.quiet]
  cases bindError params with
  | some e => exact Path.refl w
  | none => exact Path.refl w

theorem builds_commit : Builds env commit := builds_of_path fun w hw => by
  rw [commit_quiet hw.quiet]
  exact (Act.commit w).path

theorem builds_deleteFiles (params : List Param) (p : Row FileKey FileCols → Bool) :
    Builds env (execute params (Db.deleteFiles p)) :=
  builds_execute params fun w _ => Act.delete w p

theorem builds_recordFailure (key text : PyStr) : Builds env (recordFailure env key text) :=
  Builds.bind (builds_tick.bind fun _ => builds_pure _) fun _ =>
    builds_execute _ fun w _ => Act.failures w _ w.conn.working.buildMetadata

theorem builds_recordBuild (a b : ℕ) (outcome : PyStr) : Builds env (recordBuild env a b outcome) :=
  Builds.bind (builds_tick.bind fun _ => builds_pure _) fun _ =>
    Builds.bind (builds_execute _ fun w _ => Act.failures w w.conn.working.catalogFailures _) fun _ =>
      builds_commit

/-! ### Dimensions -/

/-- The resolved key gets its entry, and every other one keeps its own. -/
theorem cached_resolved {κ : Type} [DecidableEq κ] {L : Lookup κ} {key : κ} {w : World}
    (h : ∀ k i, (L.table w.conn.working).idOf k = some i → L.cache w.caches k = some i) (k : κ) (i : ℕ)
    (hi : (L.table (L.resolved key w.conn.working)).idOf k = some i) :
    L.cache (L.remember key (L.newId key w.conn.working) w.caches) k = some i := by
  rw [Lookup.remember, L.cache_setCache]
  by_cases hk : k = key
  · rw [hk, L.idOf_resolved] at hi
    rw [hk, Function.update_self, hi]
  · rw [Function.update_of_ne hk]
    refine h k i ?_
    rw [L.table_resolved] at hi
    cases hfind : (L.table w.conn.working).find key with
    | some r =>
        rw [Table.insertOrIgnore, dif_neg (by rw [hfind]; simp)] at hi
        exact hi
    | none =>
        rw [Table.idOf_insertOrIgnore_of_find hfind, Function.update_of_ne hk] at hi
        exact hi

theorem builds_resolveCustomer (name : PyStr) : Builds env (resolveCustomer name) :=
  builds_of_path fun w hw => by
    rw [resolveCustomer]
    rcases resolveLookup_cases .customer name hw.quiet with h | ⟨hb, _, h⟩
    · rw [h]; exact Path.refl w
    · rw [h]
      refine (Act.dims w ⟨dimsGrow_customer _ hb, _, _, _, _, rfl⟩ ?_ ?_ ?_ fun h => ?_).path
      · rfl
      · rfl
      · rfl
      · exact { h with customer := cached_resolved (L := .customer) h.customer }

theorem builds_resolveSite (customerId : ℕ) (name : PyStr) : Builds env (resolveSite customerId name) :=
  builds_of_path fun w hw => by
    rw [resolveSite]
    rcases resolveLookup_cases .site (customerId, name) hw.quiet with h | ⟨hb, _, h⟩
    · rw [h]; exact Path.refl w
    · rw [h]
      refine (Act.dims w ⟨dimsGrow_site _ hb, _, _, _, _, rfl⟩ ?_ ?_ ?_ fun h => ?_).path
      · rfl
      · rfl
      · rfl
      · exact { h with site := cached_resolved (L := .site) h.site }

theorem builds_resolveRobot (siteId : ℕ) (name : PyStr) : Builds env (resolveRobot siteId name) :=
  builds_of_path fun w hw => by
    rw [resolveRobot]
    rcases resolveLookup_cases .robot (siteId, name) hw.quiet with h | ⟨hb, _, h⟩
    · rw [h]; exact Path.refl w
    · rw [h]
      refine (Act.dims w ⟨dimsGrow_robot _ hb, _, _, _, _, rfl⟩ ?_ ?_ ?_ fun h => ?_).path
      · rfl
      · rfl
      · rfl
      · exact { h with robot := cached_resolved (L := .robot) h.robot }

theorem builds_resolveSource (name : PyStr) : Builds env (resolveSource name) :=
  builds_of_path fun w hw => by
    rw [resolveSource]
    rcases resolveLookup_cases .source name hw.quiet with h | ⟨hb, _, h⟩
    · rw [h]; exact Path.refl w
    · rw [h]
      refine (Act.dims w ⟨dimsGrow_source _ hb, _, _, _, _, rfl⟩ ?_ ?_ ?_ fun h => ?_).path
      · rfl
      · rfl
      · rfl
      · exact { h with source := cached_resolved (L := .source) h.source }

theorem builds_resolveIds (dims : Dims) : Builds env (resolveIds dims) :=
  (builds_resolveCustomer _).bind fun _ => (builds_resolveSite _ _).bind fun _ =>
    (builds_resolveRobot _ _).bind fun _ => (builds_resolveSource _).bind fun _ =>
      builds_commit.bind fun _ => builds_pure _

/-- After its commit, `_resolve_ids` leaves nothing uncommitted. -/
theorem resolveIds_synced (hw : WorldInv env w) {dims : Dims} {ids : Ids}
    (h : resolveIds dims w = (.ok ids, w')) : w'.conn.working = w'.conn.committed := by
  have hbind : ∀ {α β : Type} {m : Py α} {f : α → Py β} {v : World} {b : β}, Builds env m → WorldInv env v →
      (m >>= f) v = (.ok b, w') → ∃ a v', m v = (.ok a, v') ∧ WorldInv env v' ∧ f a v' = (.ok b, w') := by
    intro α β m f v b hm hv hrun
    rw [bind_apply] at hrun
    have hv' := (hm v hv).1
    rcases hmv : m v with ⟨r, v'⟩
    rw [hmv] at hrun hv'
    cases r with
    | ok a => exact ⟨a, v', rfl, hv', hrun⟩
    | error e => cases hrun
  rw [resolveIds] at h
  obtain ⟨c, w1, _, h1, h⟩ := hbind (builds_resolveCustomer _) hw h
  obtain ⟨s, w2, _, h2, h⟩ := hbind (builds_resolveSite _ _) h1 h
  obtain ⟨r, w3, _, h3, h⟩ := hbind (builds_resolveRobot _ _) h2 h
  obtain ⟨x, w4, _, h4, h⟩ := hbind (builds_resolveSource _) h3 h
  rw [bind_of_ok (commit_quiet h4.quiet)] at h
  cases h
  rfl

/-! ### Files -/

theorem builds_quarantineExisting (ids : Ids) (dims : Dims) (effKey text : PyStr) :
    Builds env (quarantineExisting env ids dims effKey text) :=
  (builds_deleteFiles _ _).bind fun _ => (builds_recordFailure _ _).bind fun _ => builds_commit

theorem idsPresent_of_transactionError {present : Bool} {written : Written}
    (h : transactionError present written = none) : present = true := by
  simp only [transactionError, Option.or_eq_none_iff] at h
  by_contra hp
  have := h.1.2
  rw [if_neg hp] at this
  cases this

/-- A transaction that raises nothing has bound the date and the file name. -/
theorem compositeBinds_of_transactionError {present : Bool} {written : Written}
    (h : transactionError present written = none) : bindError (compositeParams written.dims) = none := by
  simp only [transactionError, Option.or_eq_none_iff] at h
  exact bindError_compositeParams h.1.1.2

/-- **The per-file transaction follows a path** when nothing uncommitted precedes it. -/
theorem path_writeFileRow (hinj : FingerprintInjective env) (hw : WorldInv env w)
    (hsync : w.conn.working = w.conn.committed) (ids : Ids) (written : Written) :
    Path env w (writeFileRow env ids written w).2 := by
  rcases he : transactionError (idsPresent w.conn.working ids) written with _ | e
  · obtain ⟨db', hrun, hwrote⟩ := writeFileRow_cataloged hinj hw.quiet hw.exact hw.working.topics he
    rw [hrun]
    exact (Act.wrote w hsync (idsPresent_of_transactionError he) hwrote (compositeBinds_of_transactionError he)).path
  · obtain ⟨t, hrun⟩ := writeFileRow_rolledBack hinj hw.quiet hw.exact hsync hw.working.topics he
    have hreload : Act env w ⟨w.conn, Caches.of w.conn.working, t⟩ := Act.reload w t hsync
    rw [hrun]
    have hrest : Builds env (quarantineExisting env ids written.dims written.effKey e.errorText >>= fun _ =>
        pure ⟨.failed, e.str⟩ : Py CatalogResult) :=
      (builds_quarantineExisting _ _ _ _).bind fun _ => builds_pure _
    exact hreload.path.trans (hrest _ (hreload.worldInv hw)).2

theorem builds_applyUnparseable (ex : Extract) : Builds env (applyUnparseable env ex) :=
  (builds_recordFailure _ _).bind fun _ => builds_commit.bind fun _ => builds_pure _

/-- **`apply_extract` follows a path.** -/
theorem builds_applyExtract (hinj : FingerprintInjective env) (ex : Extract) :
    Builds env (applyExtract env ex) := by
  rw [applyExtract.eq_def]
  split
  · exact builds_pure _
  · exact builds_applyUnparseable ex
  · exact builds_applyUnparseable ex
  · exact (builds_resolveIds _).bind fun _ => (builds_quarantineExisting _ _ _ _).bind fun _ => builds_pure _
  · refine Within.bindOk (R := Path env) (fun _ _ _ h h' => h.trans h') (builds_resolveIds _) fun s ids s' hs hrun hs' => ?_
    have hpath := path_writeFileRow hinj hs' (resolveIds_synced hs hrun) ids
    exact ⟨(hpath _).worldInv hs', hpath _⟩

/-- **`catalog_object` follows a path.** -/
theorem builds_catalogObject (hinj : FingerprintInjective env) (key : PyStr) (source : Source)
    (stat : Option Stat) : Builds env (catalogObject env key source stat) := by
  have hwith : ∀ stat, Builds env (catalogWithStat env key source stat) := by
    intro stat
    refine (builds_resolveKeyDims key source).bind fun res => ?_
    rcases res with _ | ⟨dims, effKey⟩
    · exact (builds_recordFailure _ _).bind fun _ => builds_commit.bind fun _ => builds_pure _
    · refine Within.bindOk (R := Path env) (fun _ _ _ h h' => h.trans h') (builds_resolveIds _) fun s ids s' hs hrun hs' => ?_
      have hsync := resolveIds_synced hs hrun
      -- Neither the SELECT nor the read of the summary opens a transaction.
      have hleft : ∀ {w}, Path env s' w → WorldInv env w ∧ Path env s' w := fun hpath => ⟨hpath.worldInv hs', hpath⟩
      refine hleft ?_
      rcases hcomp : bindError (compositeParams dims) with _ | e
      · rw [bind_of_ok (query_ok hs'.quiet hcomp _)]
        split
        · exact Path.refl s'
        · have htick : Path env s' s'.tickClock := (Act.tick s').path
          have hs1 := htick.worldInv hs'
          rcases hread : source.readSummary s'.clock key stat.size with e | summary
          · have hask : attempt (ask fun t => source.readSummary t key stat.size) s' =
                (.ok (.error e), s'.tickClock) := by
              rw [attempt_apply, ask, bind_of_ok (tick_apply s'), hread]
              rfl
            rw [bind_of_ok hask]
            have hquarantine : Builds env (quarantineExisting env ids dims effKey e.errorText >>= fun _ =>
                pure ⟨.failed, e.str⟩ : Py CatalogResult) :=
              (builds_quarantineExisting _ _ _ _).bind fun _ => builds_pure _
            exact htick.trans (hquarantine _ hs1).2
          · have hask : attempt (ask fun t => source.readSummary t key stat.size) s' =
                (.ok (.ok summary), s'.tickClock) := by
              rw [attempt_apply, ask, bind_of_ok (tick_apply s'), hread]
              rfl
            rw [bind_of_ok hask]
            exact htick.trans (path_writeFileRow hinj hs1 hsync ids ⟨dims, effKey, stat, summary⟩)
      · rw [bind_of_error (query_unbound hs'.quiet hcomp _)]
        exact Path.refl s'
  cases stat with
  | some stat => exact (builds_pure (some stat)).bind fun found => (by cases found; exacts [builds_pure _, hwith _])
  | none => exact (builds_ask _).bind fun found => (by cases found; exacts [builds_pure _, hwith _])

/-- **`delete_by_key` follows a path.** -/
theorem builds_deleteByKey (key : PyStr) : Builds env (deleteByKey key) := by
  rw [deleteByKey]
  cases parseHiveKey key with
  | none => exact builds_pure _
  | some dims =>
      refine builds_look.bind fun w => ?_
      cases cachedIds w.caches dims with
      | none => exact builds_pure _
      | some ids =>
          refine Builds.bind (builds_statement _ fun w _ a db hrun => ?_) fun _ =>
            Builds.bind (builds_execute _ fun w _ => Act.failures w _ w.conn.working.buildMetadata) fun _ =>
              builds_commit.bind fun _ => builds_pure _
          cases hrun
          exact Act.delete w _

/-! ### The reconcile -/

theorem builds_classify (source : Source) (stored : FileKey → Option PyStr) (scan : Scan) (lst : Listing) :
    Builds env (classify env source stored scan lst) := by
  refine (builds_resolveKeyDims _ _).bind fun res => ?_
  rcases res with _ | ⟨dims, effKey⟩
  · exact (builds_recordFailure _ _).bind fun _ => builds_commit.bind fun _ => builds_pure _
  · refine builds_look.bind fun w => ?_
    dsimp only
    split
    · exact builds_pure _
    · exact builds_pure _

theorem builds_applyAndCount (hinj : FingerprintInjective env) (tally : Tally) (ex : Extract) :
    Builds env (applyAndCount env tally ex) :=
  (builds_applyExtract hinj ex).bind fun _ => builds_pure _

theorem builds_readAndApply (hinj : FingerprintInjective env) (source : Source) (workers : Workers)
    (jobs : List Job) (tally : Tally) : Builds env (readAndApply env source workers jobs tally) := by
  have hone : Builds env (foldEach (extractAndApply env source) tally jobs) :=
    Builds.foldEach (fun _ _ => builds_tick.bind fun _ => builds_tick.bind fun _ =>
      builds_applyAndCount hinj _ _) _ _
  cases workers with
  | one => exact hone
  | pool run =>
      rw [readAndApply]
      split
      · exact builds_tick.bind fun _ => Builds.foldEach (fun _ _ => builds_applyAndCount hinj _ _) _ _
      · exact hone

theorem builds_sweepRow (isPresent : FileKey → Bool) (tally : Tally) (row : Row FileKey FileCols) :
    Builds env (sweepRow isPresent tally row) := by
  rw [sweepRow]
  split
  · exact builds_pure _
  · exact (builds_deleteFiles _ _).bind fun _ => builds_pure _

/-- **`full_reconcile` follows a path.** -/
theorem builds_fullReconcile (hinj : FingerprintInjective env) (source : Source) (workers : Workers) :
    Builds env (fullReconcile env source workers) :=
  (builds_ask _).bind fun _ => (builds_query _ _).bind fun _ =>
    (Builds.foldEach (fun _ _ => builds_classify _ _ _ _) _ _).bind fun _ =>
      (builds_readAndApply hinj _ _ _ _).bind fun _ => builds_look.bind fun _ =>
        (builds_query _ _).bind fun _ => (Builds.foldEach (fun _ _ => builds_sweepRow _ _ _) _ _).bind fun _ =>
          builds_commit.bind fun _ => (builds_recordBuild _ _ _).bind fun _ => builds_pure _

end Rules

end McapCatalog.Builder
