import McapCatalog.Gates
import McapCatalog.FileIds

/-!
# The caches and the tables

The seven dictionaries are filled while statements run, and only the error path of `_write_file_row` loads them anew.

* `CachesCoherent` — every entry names a row that exists on the connection, and every row has its entry;
* `UnderOwnNames` — every file is under the dimension names and the topics it was cataloged for;
* `Sound` — the invariant behind both: what is committed and what the connection sees agree on the lookup tables, and the
  caches are the ones of both;
* `ClearIds`, `ClearWrite` — `_resolve_ids` does not raise between its inserts, and the reload after a rollback returns;
  `clearGate` and `ClearItem` follow them through one item of the worker;
* `coherent_of_clearRun` — **runs of such items keep the caches coherent**, whatever else fails in them;
* `staleRun_not_coherent` — an entry that outlives its row.
-/

namespace McapCatalog.Builder

open McapCatalog.PyText McapCatalog.PyError McapCatalog.KeyParse McapCatalog.McapSummary McapCatalog.Storage
open McapCatalog.Tables McapCatalog.RowidTable McapCatalog.KeyedRows
open McapCatalog.Connection McapCatalog.CatalogDb McapCatalog.Reconcile McapCatalog.Worker McapCatalog.Runs
open McapCatalog.SurvivingState McapCatalog.SurvivingState.Comp
open Relation

/-- A dictionary and a table hold the same keys with the same ids. -/
def IndexesTable {κ : Type} (cache : κ → Option ℕ) (t : Table κ Unit) : Prop :=
  ∀ k i, cache k = some i ↔ ∃ r ∈ t.rows, r.key = k ∧ r.id = i

theorem indexesTable_iff {κ : Type} [DecidableEq κ] {cache : κ → Option ℕ} {t : Table κ Unit} :
    IndexesTable cache t ↔ cache = t.idOf := by
  have hidOf : ∀ k i, t.idOf k = some i ↔ ∃ r ∈ t.rows, r.key = k ∧ r.id = i := by
    intro k i
    rw [Table.idOf, Option.map_eq_some_iff]
    constructor
    · intro h
      obtain ⟨r, hfind, hid⟩ := h
      obtain ⟨hr, hkey⟩ := Table.find_eq_some_iff.mp hfind
      exact ⟨r, hr, hkey, hid⟩
    · intro h
      obtain ⟨r, hr, hkey, hid⟩ := h
      exact ⟨r, Table.find_eq_some_iff.mpr ⟨hr, hkey⟩, hid⟩
  constructor
  · intro h
    funext k
    exact Option.ext fun i => (h k i).trans (hidOf k i).symm
  · intro h k i
    rw [h]
    exact hidOf k i

/-- **The caches are coherent**: each entry names a row that the connection sees, and each row has its entry. -/
structure CachesCoherent (w : World) : Prop where
  customer : IndexesTable w.caches.customer w.conn.working.customers
  site : IndexesTable w.caches.site w.conn.working.sites
  robot : IndexesTable w.caches.robot w.conn.working.robots
  source : IndexesTable w.caches.source w.conn.working.sources
  topic : IndexesTable w.caches.topic w.conn.working.topicNames
  schema : IndexesTable w.caches.schema w.conn.working.schemas
  topicSet : IndexesTable w.caches.topicSet w.conn.working.topicSets

theorem cachesCoherent_of_eq {w : World} (h : w.caches = Caches.of w.conn.working) : CachesCoherent w where
  customer := indexesTable_iff.mpr (by rw [h]; rfl)
  site := indexesTable_iff.mpr (by rw [h]; rfl)
  robot := indexesTable_iff.mpr (by rw [h]; rfl)
  source := indexesTable_iff.mpr (by rw [h]; rfl)
  topic := indexesTable_iff.mpr (by rw [h]; rfl)
  schema := indexesTable_iff.mpr (by rw [h]; rfl)
  topicSet := indexesTable_iff.mpr (by rw [h]; rfl)

/-- **Every file is under its own names**: its four ids are those of its dimensions, and its topic set, read back through
the topic and schema tables, is what its recording holds. -/
def UnderOwnNames (db : Db) : Prop :=
  ∀ r ∈ db.files.rows, db.namesOf r.key = some r.val.origin.dims ∧
    ∃ contents, readTopics db r.val = some contents ∧ contents.Perm (mergeChannels r.val.origin.summary.channels)

/-! ### The invariant -/

/-- The database is well formed, and every file has the key of its identity. -/
structure DbInv (env : Env) (db : Db) : Prop where
  inv : CatalogInv env db
  named : ∀ r ∈ db.files.rows, fileKey db r.val.origin.dims = some r.key

theorem dbInv_empty (env : Env) : DbInv env Db.empty := ⟨catalogInv_empty env, fun _ hr => absurd hr List.not_mem_nil⟩

theorem DbInv.underOwnNames {env : Env} {db : Db} (h : DbInv env db) : UnderOwnNames db := by
  intro r hr
  obtain ⟨_, contents, _, _, hread, hperm, _⟩ := readTopics_of_encodes (h.inv.encodes r hr)
  exact ⟨namesOf_fileKey (h.named r hr), contents, hread, hperm⟩

/-- What is committed and what the connection sees are well formed and have the same lookup tables, and the caches are
theirs. -/
structure Sound (env : Env) (db view : Db) (caches : Caches) : Prop where
  caches : caches = Caches.of view
  lookups : Caches.of db = Caches.of view
  committed : DbInv env db
  working : DbInv env view

section Invariant

variable {env : Env} {db view : Db} {caches : Caches}

theorem Sound.coherent {w : World} (h : Sound env w.conn.committed w.conn.working w.caches) : CachesCoherent w :=
  cachesCoherent_of_eq h.caches

/-- A change of the view that leaves the lookup tables alone. -/
theorem Sound.setWorking {view' : Db} (h : Sound env db view caches) (hof : Caches.of view' = Caches.of view)
    (hview : DbInv env view') : Sound env db view' caches :=
  ⟨h.caches.trans hof.symm, h.lookups.trans hof.symm, h.committed, hview⟩

theorem sound_opened (h : DbInv env db) : Sound env db db (Caches.of db) := ⟨rfl, rfl, h, h⟩

theorem DbInv.deleteFiles (h : DbInv env db) (p : Row FileKey FileCols → Bool) : DbInv env (db.deleteFiles p) where
  inv := h.inv.deleteFiles p
  named r hr := by
    show fileKey db r.val.origin.dims = some r.key
    exact h.named r (Table.mem_filter.mp hr).1

theorem DbInv.overrides (h : DbInv env db) {overrides : Rows (ℕ × PyStr) (Option PyStr × ℤ)}
    (hrefs : ∀ i k, (overrides.lookup (i, k)).isSome → (db.files.get i).isSome) :
    DbInv env { db with tagsOverride := overrides } where
  inv := h.inv.overrides hrefs
  named r hr := by
    show fileKey db r.val.origin.dims = some r.key
    exact h.named r hr

/-- **What every statement keeps** that leaves the lookup tables alone and writes no file. -/
theorem tame_sound (env : Env) : Tame (Sound env) where
  commit h := ⟨h.caches, rfl, h.working, h.working⟩
  rollBack _ _ _ h := ⟨h.caches.trans h.lookups.symm, rfl, h.committed, h.committed⟩
  delete p _ _ _ h := h.setWorking rfl (h.working.deleteFiles p)
  failures failures build _ view _ h := by
    refine h.setWorking rfl ⟨h.working.inv.failures failures build, fun r hr => ?_⟩
    show fileKey view r.val.origin.dims = some r.key
    exact h.working.named r hr
  override {i key value now db view view' caches} hrun h := by
    rw [Db.upsertOverride] at hrun
    split at hrun
    · rename_i hfile
      cases hrun
      exact h.setWorking rfl (h.working.overrides ((onlyOverrides_insert hfile key value).refs h.working.inv.overrideRefs))
    · cases hrun
  eraseOverride k _ view _ h := by
    have honly : OnlyOverrides k.1 view { view with tagsOverride := view.tagsOverride.erase (k.1, k.2) } :=
      onlyOverrides_erase k.2
    exact h.setWorking rfl (h.working.overrides (honly.refs h.working.inv.overrideRefs))

theorem DbInv.onlyDims (h : DbInv env db) (ho : OnlyDims db view) : DbInv env view where
  inv := h.inv.onlyDims ho
  named r hr := by
    obtain ⟨hgrow, _, _, _, _, rfl⟩ := ho
    exact fileKey_mono hgrow.names (h.named r hr)

/-- **A file written under the key of its identity** keeps every file under its own. -/
theorem DbInv.wrote (h : DbInv env db) {ids : Ids} {written : Written}
    (hkey : fileKey db written.dims = some (ids.key written.dims)) (hids : idsPresent db ids = true)
    (hw : Wrote env (ids.key written.dims) written db view) : DbInv env view where
  inv := h.inv.wrote hids hw
  named r hr := by
    obtain ⟨now, setId, blob, hfiles, _⟩ := hw.files
    rw [hfiles] at hr
    rw [fileKey_congr hw.customers hw.sites hw.robots hw.sources]
    cases Table.mem_upsert.mp hr with
    | inl hold => exact h.named r hold.1
    | inr hnew =>
        rw [hnew]
        exact hkey

end Invariant

/-! ### The calls that fill the caches -/

/-- The invariant of a world. -/
abbrev SoundAt (env : Env) (w : World) : Prop := Sound env w.conn.committed w.conn.working w.caches


section Calls

variable {env : Env} {w w' : World}

/-- What a tame call leaves. -/
theorem SoundAt.after {α : Type} {m : Py α} {Q : α → Prop} (h : SoundAt env w) (hm : Keeps (Sound env) 0 m Q) :
    Leaves (SoundAt env) m w :=
  (hm.after ⟨h, Nat.zero_le _⟩).inv

theorem SoundAt.viewing (h : SoundAt env w) : scripted w [] = viewing w.conn.committed w.conn.working w.clock := by
  rw [Builder.viewing, ← h.caches]
  rfl

/-- **`_resolve_ids` that returns** has committed its rows with their entries, and gives the identity its key. -/
theorem SoundAt.resolveIds (h : SoundAt env w) {dims : Dims} {ids : Ids} (hrun : resolveIds dims w = (.ok ids, w')) :
    SoundAt env w' ∧ fileKey w'.conn.working dims = some (ids.key dims) := by
  have hcalm := calm_resolveIds dims w ids w' hrun
  have hspec := resolveIds_viewing h.working.inv dims w.conn.committed w.clock
  rw [h.viewing] at hcalm
  cases hbind : bindError (nameParams dims) with
  | some e =>
      rw [hbind] at hspec
      obtain ⟨db', herror, _⟩ := hspec
      rw [hcalm] at herror
      cases herror
  | none =>
      rw [hbind] at hspec
      obtain ⟨ids', db', hok, honly, hkey⟩ := hspec
      rw [hcalm] at hok
      obtain ⟨hids, hworld⟩ := Prod.ext_iff.mp hok
      cases Except.ok.inj hids
      have hdb : DbInv env db' := h.working.onlyDims honly
      have hleft : SoundAt env (scripted w' []) ∧ fileKey (scripted w' []).conn.working dims = some (ids.key dims) := by
        rw [show scripted w' [] = Builder.viewing db' db' w.clock from hworld]
        exact ⟨sound_opened hdb, hkey⟩
      exact hleft

/-- The per-file transaction that returns leaves the caches of what it wrote. -/
theorem SoundAt.fileTransaction (hinj : FingerprintInjective env) (h : SoundAt env w) {ids : Ids} {written : Written}
    (hkey : fileKey w.conn.working written.dims = some (ids.key written.dims)) {u : Unit}
    (hrun : fileTransaction env ids written w = (.ok u, w')) :
    w'.caches = Caches.of w'.conn.working ∧ DbInv env w'.conn.working := by
  have hcalm := calm_fileTransaction env ids written w u w' hrun
  have hexact : onTopics (scripted w []) w.conn.working = scripted w [] := by
    rw [h.viewing]
    exact viewing_topicsExact
  have hspec := fileTransaction_onTopics (w := scripted w []) hinj rfl ids written h.working.inv.topics
  rw [hexact] at hspec
  cases herr : transactionError (idsPresent w.conn.working ids) written with
  | some e =>
      rw [herr] at hspec
      obtain ⟨w₁, herror, _⟩ := hspec
      rw [hcalm] at herror
      cases herror
  | none =>
      rw [herr] at hspec
      obtain ⟨db', hok, hwrote⟩ := hspec
      rw [hcalm] at hok
      have hworld : scripted w' [] = onTopics (scripted w []).tickClock db' := (Prod.ext_iff.mp hok).2
      have hdb : DbInv env db' := h.working.wrote hkey (idsPresent_of_transactionError herr) hwrote
      have hcaches : (onTopics (scripted w []).tickClock db').caches = Caches.of db' := by
        show ({ w.caches with
          topic := db'.topicNames.idOf
          schema := db'.schemas.idOf
          topicSet := db'.topicSets.idOf } : Caches) = _
        rw [h.caches, Caches.of, Caches.of, hwrote.customers, hwrote.sites, hwrote.robots, hwrote.sources]
      have hleft : (scripted w' []).caches = Caches.of (scripted w' []).conn.working ∧
          DbInv env (scripted w' []).conn.working := by
        rw [hworld]
        exact ⟨hcaches, hdb⟩
      exact hleft

/-- Whenever the per-file transaction is rolled back from here, the reload of the caches returns. -/
def ClearWrite (env : Env) (ids : Ids) (written : Written) (w : World) : Prop :=
  ∀ e w₁, withConn (fileTransaction env ids written) w = (.error e, w₁) → ∃ caches w₂, loadCaches w₁ = (.ok caches, w₂)

/-- **`_write_file_row`** keeps the invariant: its commit publishes rows and entries together, and after its rollback the
caches are loaded anew. -/
theorem SoundAt.writeFileRow (hinj : FingerprintInjective env) (h : SoundAt env w) {ids : Ids} {written : Written}
    (hkey : fileKey w.conn.working written.dims = some (ids.key written.dims)) (hclear : ClearWrite env ids written w) :
    Leaves (SoundAt env) (writeFileRow env ids written) w := by
  rcases hrun : withConn (Builder.fileTransaction env ids written) w with ⟨r, w₁⟩
  have hatt : attempt (withConn (Builder.fileTransaction env ids written)) w = (.ok r, w₁) := by
    rw [attempt_apply, hrun]
  refine leaves_bind_of_ok hatt ?_
  cases r with
  | ok u =>
      obtain ⟨w₂, hbody, hcommit⟩ := withConn_of_ok hrun
      obtain ⟨hcaches, hdb⟩ := h.fileTransaction hinj hkey hbody
      have hcalm := calm_commit w₂ () w₁ hcommit
      rw [commit_quiet (quiet_scripted w₂)] at hcalm
      have hworld : scripted w₁ [] = (scripted w₂ []).commitWorking := (Prod.ext_iff.mp hcalm).2.symm
      have hleft : SoundAt env (scripted w₁ []) := by
        rw [hworld]
        exact ⟨hcaches, rfl, hdb, hdb⟩
      exact hleft
  | error e =>
      obtain ⟨hcommitted, hworking⟩ := withConn_of_error (keepsCommitted_fileTransaction env ids written) hrun
      obtain ⟨caches, w₂, hload⟩ := hclear e w₁ hrun
      have hcalm := calm_loadCaches w₁ caches w₂ hload
      rw [loadCaches_quiet (quiet_scripted w₁)] at hcalm
      obtain ⟨hcaches, hworld⟩ := Prod.ext_iff.mp hcalm
      have hconn : w₂.conn.committed = w.conn.committed ∧ w₂.conn.working = w.conn.committed := by
        have hsame : (scripted w₂ []).conn = (scripted w₁ []).conn := by rw [show scripted w₂ [] = _ from hworld.symm]
        exact ⟨(congrArg Conn.committed hsame).trans hcommitted, (congrArg Conn.working hsame).trans hworking⟩
      have hreloaded : SoundAt env (w₂.setCaches caches) := by
        show Sound env w₂.conn.committed w₂.conn.working caches
        rw [hconn.1, hconn.2, ← Except.ok.inj hcaches]
        show Sound env w.conn.committed w.conn.committed (Caches.of w₁.conn.working)
        rw [hworking]
        exact sound_opened h.committed
      refine leaves_bind_of_ok hload (leaves_bind_of_ok (change_apply _ _) ?_)
      exact hreloaded.after ((keeps_quarantineExisting (tame_sound env) _ _ _ _).bind fun _ _ =>
        keeps_pure (Q := fun _ => True) trivial)

/-- Whenever `_resolve_ids` raises from here, it has inserted nothing. -/
def ClearIds (dims : Dims) (w : World) : Prop :=
  ∀ e w₁, resolveIds dims w = (.error e, w₁) → Untouched w.conn w₁.conn ∧ w₁.caches = w.caches

/-- Both conditions, at the calls inside an operation. -/
def clearGate (env : Env) : Gate := ⟨ClearIds, ClearWrite env⟩

theorem SoundAt.untouched (h : SoundAt env w) (hconn : Untouched w.conn w'.conn) (hcaches : w'.caches = w.caches) :
    SoundAt env w' := by
  show Sound env w'.conn.committed w'.conn.working w'.caches
  rw [hconn.1, hcaches]
  cases hconn.2 with
  | inl hworking => rw [hworking]; exact h
  | inr hcommitted => rw [hcommitted]; exact (tame_sound env).rollBack _ _ _ h

/-- **The invariant passes the two gaps.** -/
theorem passes_sound (env : Env) (hinj : FingerprintInjective env) : Passes env (Sound env) (clearGate env) where
  tame := tame_sound env
  resolved h hrun := SoundAt.resolveIds h hrun
  unresolved h hclear hrun := SoundAt.untouched h (hclear _ _ hrun).1 (hclear _ _ hrun).2
  write h hkey hclear := SoundAt.writeFileRow hinj h hkey hclear

end Calls

/-! ### One item of the worker -/

/-- Through one item of the worker: deletions and tag edits fill no cache. -/
def ClearItem (env : Env) (source : Source) (workers : Workers) (item : WorkItem) (w : World) : Prop :=
  GatedItem env (clearGate env) source workers item w

section Items

variable {env : Env} {w : World} {source : Source}

theorem SoundAt.tickClock (h : SoundAt env w) : SoundAt env w.tickClock := h

/-- **One item of the worker**, under any script of failing statements that is clear of the two gaps. -/
theorem SoundAt.workItem (hinj : FingerprintInjective env) (h : SoundAt env w) {workers : Workers} {item : WorkItem}
    (hclear : ClearItem env source workers item w) : Leaves (SoundAt env) (workItem env source workers item) w :=
  (passes_sound env hinj).workItem h hclear

end Items

/-! ### Runs -/

/-- One step of a worker's run: an item whose statements fail as any script says, from a world where it meets the
condition, or the process is started again. -/
inductive WorkStep (env : Env) (P : Source → Workers → WorkItem → World → Prop) : World → World → Prop where
  | item (source : Source) (workers : Workers) (item : WorkItem) (w : World) (script : List (Option Fault))
      (h : P source workers item (scripted w script)) :
      WorkStep env P w (workItem env source workers item (scripted w script)).2
  | restart (w : World) : WorkStep env P w (Worker.restart w)

/-- A world that a run of such steps reaches from an empty catalog. -/
def WorkRun (env : Env) (P : Source → Workers → WorkItem → World → Prop) (w : World) : Prop :=
  ∃ t, ReflTransGen (WorkStep env P) (opened Db.empty t) w

theorem soundAt_of_clearRun {env : Env} (hinj : FingerprintInjective env) {w : World} (h : WorkRun env (ClearItem env) w) :
    SoundAt env w := by
  obtain ⟨t, hrun⟩ := h
  induction hrun with
  | refl =>
      rw [opened_eq]
      exact sound_opened (dbInv_empty env)
  | @tail v _ _ hstep ih =>
      cases hstep with
      | item source workers item _ script hclear =>
          have hv : SoundAt env (scripted v script) := ih
          exact hv.workItem hinj hclear
      | restart =>
          rw [Worker.restart, opened_eq]
          exact sound_opened ih.committed

/-- **Coherence along clear runs.**  If in every item `_resolve_ids` raises only before it has inserted a row, and every
reload of the caches returns, then between any two items the caches hold exactly the rows of the seven tables, and every
file is under its own names, whatever else fails. -/
theorem coherent_of_clearRun {env : Env} (hinj : FingerprintInjective env) {w : World}
    (h : WorkRun env (ClearItem env) w) : CachesCoherent w ∧ UnderOwnNames w.conn.working :=
  ⟨(soundAt_of_clearRun hinj h).coherent, (soundAt_of_clearRun hinj h).working.underOwnNames⟩

/-! ### Connections that work -/

section Quiet

variable {env : Env} {w : World}

/-- On a connection that works, `_resolve_ids` returns if the names bind. -/
theorem SoundAt.clearIds (h : SoundAt env w) (hq : w.Quiet) {dims : Dims} (hbind : bindError (nameParams dims) = none) :
    ClearIds dims w := by
  intro e w₁ hrun
  have hspec := resolveIds_viewing h.working.inv dims w.conn.committed w.clock
  rw [hbind, ← h.viewing, scripted_of_quiet hq] at hspec
  obtain ⟨ids, db', hok, _⟩ := hspec
  rw [hrun] at hok
  cases hok

/-- On a connection that works, the reload returns. -/
theorem SoundAt.clearWrite (hinj : FingerprintInjective env) (h : SoundAt env w) (hq : w.Quiet) (ids : Ids)
    (written : Written) : ClearWrite env ids written w := by
  intro e w₁ hrun
  have hexact : onTopics w w.conn.working = w := by
    rw [← scripted_of_quiet hq, h.viewing]
    exact viewing_topicsExact
  have hspec := fileTransaction_onTopics hinj hq ids written h.working.inv.topics
  rw [hexact] at hspec
  cases herr : transactionError (idsPresent w.conn.working ids) written with
  | some e' =>
      rw [herr] at hspec
      obtain ⟨w', herror, hquiet, _⟩ := hspec
      rw [withConn_error herror] at hrun
      cases hrun
      exact ⟨_, _, loadCaches_quiet hquiet.rollBackWorking⟩
  | none =>
      rw [herr] at hspec
      obtain ⟨db', hok, _⟩ := hspec
      rw [withConn_ok hok (onTopics_quiet hq.tickClock db')] at hrun
      cases hrun

/-- **On a connection that works**, cataloging a key whose names bind is clear. -/
theorem SoundAt.clearCatalog (hinj : FingerprintInjective env) (h : SoundAt env w) (hq : w.Quiet) {key : PyStr}
    {source : Source} {stat : Stat} (hbind : ∀ dims effKey,
      trustedDims (source.intendedKey w.clock key) key = some (dims, effKey) → bindError (nameParams dims) = none) :
    GatedCatalog (clearGate env) key source stat w := by
  intro dims effKey htrusted
  refine ⟨h.tickClock.clearIds hq (hbind dims effKey htrusted), fun ids w₁ hresolve existing w₂ hquery _ summary _ => ?_⟩
  have hspec := resolveIds_viewing h.working.inv dims w.conn.committed w.tickClock.clock
  rw [hbind dims effKey htrusted] at hspec
  have hview : w.tickClock = Builder.viewing w.conn.committed w.conn.working w.tickClock.clock :=
    (scripted_of_quiet hq.tickClock).symm.trans h.tickClock.viewing
  obtain ⟨ids', db', hok, honly, _⟩ := hspec
  rw [← hview, hresolve] at hok
  have hw₁ : w₁ = Builder.viewing db' db' w.tickClock.clock := (Prod.ext_iff.mp hok).2
  have hw₂ : w₂ = w₁ := by
    cases hcomp : bindError (compositeParams dims) with
    | none =>
        rw [hw₁] at hquery ⊢
        rw [query_ok viewing_quiet hcomp] at hquery
        exact (Prod.ext_iff.mp hquery).2.symm
    | some e =>
        rw [hw₁, query_unbound viewing_quiet hcomp] at hquery
        cases hquery
  have hsound : SoundAt env w₂ := by
    rw [hw₂, hw₁]
    exact sound_opened (h.working.onlyDims honly)
  have hquiet : w₂.Quiet := by
    rw [hw₂, hw₁]
    exact viewing_quiet
  exact hsound.tickClock.clearWrite hinj hquiet.tickClock ids _

end Quiet

/-! ### An entry that outlives its row -/

/-- The insert of the site fails, and SQLite rolls the insert of the customer back. -/
def siteFails : List (Option Fault) := [none, none, some .rollBack]

/-- One item of a run over a bucket with one recording. -/
def bucketItem (item : WorkItem) (script : List (Option Fault)) (w : World) : World :=
  (workItem oneTopicEnv (s3Source (fun _ => bucketOf earlierKey) []) .one item (scripted w script)).2

def staleWorld : World := bucketItem (.catalog earlierKey) siteFails (opened Db.empty 0)

theorem workRun_staleWorld : WorkRun oneTopicEnv (fun _ _ _ _ => True) staleWorld :=
  ⟨0, ReflTransGen.single (WorkStep.item _ _ _ _ siteFails trivial)⟩

theorem staleWorld_customer :
    staleWorld.caches.customer (py "c") = some 1 ∧ staleWorld.conn.working.customers.rows = [] := by decide +kernel

/-- **A stale entry**: after one failed item the caches hold a customer that the table does not have.  The next customer
is given its id. -/
theorem staleRun_not_coherent :
    ¬∀ w, WorkRun oneTopicEnv (fun _ _ _ _ => True) w → CachesCoherent w ∧ UnderOwnNames w.conn.working := by
  intro hall
  obtain ⟨hcached, hrows⟩ := staleWorld_customer
  obtain ⟨r, hr, _⟩ := ((hall staleWorld workRun_staleWorld).1.customer _ _).mp hcached
  rw [hrows] at hr
  cases hr

/-- The same item on a connection that works. -/
theorem clearItem_earlierKey : ClearItem oneTopicEnv (s3Source (fun _ => bucketOf earlierKey) []) .one
    (.catalog earlierKey) (scripted (opened Db.empty 0) []) := by
  intro _ stat _
  have hempty : SoundAt oneTopicEnv (opened Db.empty 0) := by
    rw [opened_eq]
    exact sound_opened (dbInv_empty _)
  have htrusted : trustedDims none earlierKey = some (earlierDims, earlierKey) := by decide +kernel
  have hbind : bindError (nameParams earlierDims) = none := by decide
  refine hempty.tickClock.tickClock.clearCatalog fingerprintInjective_oneTopicEnv rfl fun dims effKey h => ?_
  have hdims : (dims, effKey) = (earlierDims, earlierKey) := Option.some.inj (h.symm.trans htrusted)
  rw [show dims = earlierDims from (Prod.ext_iff.mp hdims).1]
  exact hbind

/-- The recording is cataloged, and deleting it fails half way. -/
def halfDeleted : World :=
  bucketItem (.delete earlierKey) [none, some .keep] (bucketItem (.catalog earlierKey) [] (opened Db.empty 0))

theorem coherent_of_clearRun_halfDeleted : CachesCoherent halfDeleted ∧ UnderOwnNames halfDeleted.conn.working :=
  coherent_of_clearRun fingerprintInjective_oneTopicEnv
    ⟨0, (ReflTransGen.single (WorkStep.item _ _ _ _ [] clearItem_earlierKey)).tail
      (WorkStep.item _ _ (.delete earlierKey) _ _ trivial)⟩

end McapCatalog.Builder
