import McapCatalog.RebuiltKeys
import McapCatalog.Placement

/-!
# Whose row a deletion removes

`catalog_object` derives the identity of an object from the key in the file, or from the key it is stored under, and
trusts it only if it is rebuilt exactly; `delete_by_key` parses the bare key and trusts whatever parses.

* `CatalogedFrom` — the row was written from what a source answered for a key that the run cataloged;
* `Spared` — a row and the overrides of its file are still there;
* `spared_deleteByKey` — `delete_by_key` removes nothing but the row under the key that the caches give it;
* `Alone` — no other cataloged object resolves to what the bare key parses to; `alone_of_ownKeys`, when that is so;
* `deletes_own_of_ownedRun` — **then a deletion removes only rows of the deleted object**, after any run in which
  `_resolve_ids` raises only before it has inserted a row;
* `overridden_deletes_other` — an override sends a row to where another key deletes it.
-/

namespace McapCatalog.Builder

open McapCatalog.PyText McapCatalog.PyError McapCatalog.KeyParse McapCatalog.McapSummary McapCatalog.Storage
open McapCatalog.Tables McapCatalog.RowidTable McapCatalog.KeyedRows
open McapCatalog.Connection McapCatalog.CatalogDb McapCatalog.Reconcile McapCatalog.Worker
open McapCatalog.SurvivingState McapCatalog.SurvivingState.Comp
open Relation

/-- The row was written from what the source answered for the key, which is one of those that the run catalogs. -/
def CatalogedFrom (source : Source) (K : Set PyStr) (key : PyStr) (r : Row FileKey FileCols) : Prop :=
  key ∈ K ∧ ∃ t₁ t₂, CameFrom source key t₁ t₂ r.val.origin

/-- The row is committed, and no deletion of it is pending. -/
def Stored (conn : Conn) (r : Row FileKey FileCols) : Prop :=
  r ∈ conn.committed.files.rows ∧ r ∈ conn.working.files.rows

/-- The row is there, with the overrides that its file had. -/
def Standing (conn : Conn) (r : Row FileKey FileCols) (db : Db) : Prop :=
  r ∈ db.files.rows ∧ ∃ before, (before = conn.committed ∨ before = conn.working) ∧
    ∀ k, db.tagsOverride.lookup (r.id, k) = before.tagsOverride.lookup (r.id, k)

/-- Nothing has happened to the row and the overrides of its file. -/
def Spared (conn after : Conn) (r : Row FileKey FileCols) : Prop :=
  Standing conn r after.committed ∧ Standing conn r after.working

/-- **Deleting a key removes only what was cataloged from it**: a row that goes was cataloged from the object with this
key, and the rows of objects under other keys stay with their overrides. -/
def DeletesOwn (source : Source) (K : Set PyStr) (key : PyStr) (w : World) : Prop :=
  ∀ script r, Stored w.conn r →
    (¬Spared w.conn (deleteByKey key (scripted w script)).2.conn r → CatalogedFrom source K key r) ∧
      ∀ other ≠ key, CatalogedFrom source K other r → Spared w.conn (deleteByKey key (scripted w script)).2.conn r

/-! ### The rows that stay -/

section Spared

variable {conn : Conn} {r : Row FileKey FileCols} {db : Db} {w : World}

theorem Standing.deleteFiles (h : Standing conn r db) {p : Row FileKey FileCols → Bool} (hp : p r = false) :
    Standing conn r (db.deleteFiles p) := by
  obtain ⟨hr, before, hbefore, hover⟩ := h
  refine ⟨Table.mem_filter.mpr ⟨hr, by simp [hp]⟩, before, hbefore, fun k => ?_⟩
  rw [lookup_override_deleteFiles, goes_of_get (Table.get_of_mem hr), hp, if_neg (by simp)]
  exact hover k

/-- **`delete_by_key` spares every row** but the one with the key that the caches give it, whatever fails in it. -/
theorem spared_deleteByKey {key : PyStr} (hstored : Stored w.conn r)
    (hkey : ∀ dims, parseHiveKey key = some dims → compositeIds w.caches dims ≠ some r.key) :
    Spared w.conn (deleteByKey key w).2.conn r := by
  have hholds : HoldsAt (fun db view _ => Standing w.conn r db ∧ Standing w.conn r view) w :=
    ⟨⟨hstored.1, _, Or.inl rfl, fun _ => rfl⟩, ⟨hstored.2, _, Or.inr rfl, fun _ => rfl⟩⟩
  have hroll : RollsBack fun db view _ => Standing w.conn r db ∧ Standing w.conn r view := fun _ _ _ h => ⟨h.1, h.1⟩
  show Leaves (HoldsAt fun db view _ => Standing w.conn r db ∧ Standing w.conn r view) (deleteByKey key) w
  rw [deleteByKey]
  cases hparse : parseHiveKey key with
  | none => exact hholds
  | some dims =>
      refine leaves_bind_of_ok (look_apply w) ?_
      cases hids : cachedIds w.caches dims with
      | none => exact hholds
      | some ids =>
          have hother : decide (r.key = ids.key dims) = false := by
            have hne := hkey dims hparse
            rw [compositeIds, hids] at hne
            exact decide_eq_false fun heq => hne (congrArg some heq.symm)
          refine Keeps.leaves (Q := fun _ => True) (Keeps.bind (Q := fun _ => True) ?_ fun _ _ =>
            Keeps.bind (Q := fun _ => True) ?_ fun _ _ =>
              (keeps_commitOf hroll fun hview => ⟨hview.2, hview.2⟩).bind fun _ _ => keeps_pure trivial) hholds
          · refine keeps_statement hroll _ fun hrun hview => ?_
            cases hrun
            exact ⟨hview.1, hview.2.deleteFiles hother⟩
          · exact keeps_execute hroll _ fun hview => hview

end Spared

/-! ### Runs -/

/-- Wherever `_resolve_ids` raises, it has inserted nothing; nothing is asked of `_write_file_row`. -/
def clearing : Gate where
  ids := ClearIds
  write _ _ _ := True

theorem passes_seated_clearing (env : Env) : Passes env (Seated ∅) clearing where
  tame := tame_seated ∅
  resolved h hrun := Seated.resolveIds h hrun
  unresolved {w dims e w'} h hclear hrun := by
    obtain ⟨huntouched, hcaches⟩ := hclear _ _ hrun
    show Seated ∅ w'.conn.committed w'.conn.working w'.caches
    rw [huntouched.1, hcaches]
    cases huntouched.2 with
    | inl hworking => rw [hworking]; exact h
    | inr hcommitted => rw [hcommitted]; exact (tame_seated ∅).rollBack _ _ _ h
  write h hkey _ := Seated.writeFileRow h hkey

/-- An item over the source that catalogs keys in `K`, with `_resolve_ids` clear. -/
def OwnedItem (env : Env) (source : Source) (K : Set PyStr) (asked : Source) (workers : Workers) (item : WorkItem)
    (w : World) : Prop :=
  asked = source ∧ CatalogsIn K source item w ∧ GatedItem env clearing source workers item w

/-- No other cataloged object ever resolves to what the bare key parses to. -/
def Alone (source : Source) (K : Set PyStr) (key : PyStr) : Prop :=
  ∀ other ∈ K, ∀ t dims effKey, trustedDims (source.intendedKey t other) other = some (dims, effKey) →
    parseHiveKey key = some dims → other = key

section Runs

variable {env : Env} {source : Source} {K : Set PyStr} {key : PyStr} {w : World}

/-- **An exact key of an object store is alone**, if no object that the run catalogs has a leading slash. -/
theorem alone_of_ownKeys (hown : OwnKeys source) (hslash : K ⊆ Slashless)
    (hexact : ∀ dims, parseHiveKey key = some dims → rebuildHiveKey dims = key) : Alone source K key := by
  intro other hother t dims effKey htrusted hparse
  rw [hown t other] at htrusted
  have hrebuilt := (rebuild_eq_iff htrusted).2.mpr (hslash hother _ htrusted)
  exact hrebuilt.symm.trans (hexact dims hparse)

/-- What such a run leaves: every row is under its names, which the caches know, and was cataloged from a key in `K`. -/
theorem seated_of_ownedRun (h : WorkRun env (OwnedItem env source K) w) :
    HoldsAt (Seated ∅) w ∧ HoldsAt (BothIn (fromSource source K)) w := by
  obtain ⟨t, hrun⟩ := h
  induction hrun with
  | refl =>
      rw [opened_eq]
      exact ⟨seated_empty, fun _ hr => absurd hr List.not_mem_nil, fun _ hr => absurd hr List.not_mem_nil⟩
  | @tail v _ _ hstep ih =>
      cases hstep with
      | item asked workers item _ script howned =>
          obtain ⟨rfl, hitem, hgate⟩ := howned
          exact ⟨(passes_seated_clearing env).workItem (w := scripted v script) ih.1 hgate,
            bothIn_workItem subset_rfl (w := scripted v script) hitem ih.2⟩
      | restart =>
          rw [Worker.restart, opened_eq]
          exact ⟨seated_opened ih.1, ih.2.1, ih.2.1⟩

/-- **A deletion removes only rows of the deleted object**, in every state that such a run reaches. -/
theorem deletes_own_of_ownedRun (h : WorkRun env (OwnedItem env source K) w) (halone : Alone source K key) :
    DeletesOwn source K key w := by
  obtain ⟨hseated, horigins⟩ := seated_of_ownedRun h
  intro script r hstored
  have hsame : ∀ dims, parseHiveKey key = some dims → compositeIds w.caches dims = some r.key →
      ∀ other, CatalogedFrom source K other r → other = key := by
    intro dims hparse hcached other hfrom
    have hcomposite : compositeIds w.caches dims = fileKey w.conn.working dims := hseated.exact.compositeIds dims
    rw [hcomposite] at hcached
    have hdims : r.val.origin.dims = dims := fileKey_injective (hseated.working.named r hstored.2) hcached
    obtain ⟨hother, t₁, t₂, hcame⟩ := hfrom
    obtain ⟨t, htrusted⟩ := hcame.dims
    exact halone other hother t _ _ htrusted (hdims ▸ hparse)
  have hspared : (∀ dims, parseHiveKey key = some dims → compositeIds w.caches dims ≠ some r.key) →
      Spared w.conn (deleteByKey key (scripted w script)).2.conn r :=
    fun hne => spared_deleteByKey (w := scripted w script) hstored hne
  refine ⟨fun hgone => ?_, fun other hne hfrom => hspared fun dims hparse hcached =>
    hne (hsame dims hparse hcached other hfrom)⟩
  obtain ⟨other, hother, t₁, t₂, hcame⟩ := horigins.2 r hstored.2
  by_contra hforeign
  refine hgone (hspared fun dims hparse hcached => hforeign ?_)
  have hkey := hsame dims hparse hcached other ⟨hother, t₁, t₂, hcame⟩
  rw [← hkey]
  exact ⟨hother, t₁, t₂, hcame⟩

end Runs

/-! ### A file that is destined for another key -/

def drivePath : PyStr := py "drive.mcap"

/-- A tree with one file, which carries the key it is destined for. -/
def overriddenTree : LocalFs where
  stat _ key := if key = drivePath then some (100, 5) else none
  openSummary _ _ := .ok (some blankSummary)
  s3Key _ _ := .ok (some earlierKey)
  files _ := [drivePath]
  stable _ _ := true

/-- The file is cataloged, and the process is started again. -/
def driveCataloged : World :=
  (workItem oneTopicEnv (localSource overriddenTree) .one (.catalog drivePath) (scripted (opened Db.empty 0) [])).2

def overriddenCataloged : World := Worker.restart driveCataloged

/-- An item over the tree that catalogs this file only. -/
def DriveItem (asked : Source) (_workers : Workers) (item : WorkItem) (w : World) : Prop :=
  asked = localSource overriddenTree ∧ CatalogsIn {drivePath} (localSource overriddenTree) item w

theorem overriddenCataloged_rows : overriddenCataloged.conn.committed.files.rows.length = 1 := by decide +kernel

theorem overriddenDeleted_rows :
    (deleteByKey earlierKey (scripted overriddenCataloged [])).2.conn.working.files.rows.length = 0 := by decide +kernel

theorem stored_restart {w : World} {r : Row FileKey FileCols} (hr : r ∈ (Worker.restart w).conn.committed.files.rows) :
    Stored (Worker.restart w).conn r := by
  rw [Worker.restart, opened_eq] at hr ⊢
  exact ⟨hr, hr⟩

/-- **The row of a file that carries another key** goes when that key is deleted, although nothing was ever stored there. -/
theorem overridden_deletes_other :
    ¬∀ w, WorkRun oneTopicEnv DriveItem w → ∀ key, DeletesOwn (localSource overriddenTree) {drivePath} key w := by
  intro hall
  have hitem : DriveItem (localSource overriddenTree) .one (.catalog drivePath) (scripted (opened Db.empty 0) []) :=
    ⟨rfl, Set.mem_singleton drivePath⟩
  have hcataloged : WorkStep oneTopicEnv DriveItem (opened Db.empty 0) driveCataloged := WorkStep.item _ _ _ _ [] hitem
  have hrestarted : WorkStep oneTopicEnv DriveItem driveCataloged overriddenCataloged := WorkStep.restart driveCataloged
  have hrun : WorkRun oneTopicEnv DriveItem overriddenCataloged := ⟨0, (ReflTransGen.single hcataloged).tail hrestarted⟩
  have hlen : 0 < overriddenCataloged.conn.committed.files.rows.length := by
    rw [overriddenCataloged_rows]
    decide
  obtain ⟨r, hr⟩ := List.exists_mem_of_length_pos hlen
  have hstored : Stored overriddenCataloged.conn r := by
    rw [overriddenCataloged] at hr ⊢
    exact stored_restart hr
  have hfrom := (hall _ hrun earlierKey [] r hstored).1 fun hspared => by
    have hpos := List.length_pos_of_mem hspared.2.1
    rw [overriddenDeleted_rows] at hpos
    exact absurd hpos (by decide)
  exact absurd (Set.mem_singleton_iff.mp hfrom.1) (by decide)

/-! ### An object under its own key -/

/-- The object is cataloged under a key that binds. -/
theorem owned_bucketItem : OwnedItem oneTopicEnv (s3Source (fun _ => bucketOf earlierKey) []) {earlierKey}
    (s3Source (fun _ => bucketOf earlierKey) []) .one (.catalog earlierKey) (scripted (opened Db.empty 0) []) := by
  refine ⟨rfl, Set.mem_singleton _, fun _ stat _ dims effKey htrusted => ⟨?_, fun _ _ _ _ _ _ _ _ _ => trivial⟩⟩
  have hempty : HoldsAt (Seated ∅) (opened Db.empty 0) := by
    rw [opened_eq]
    exact seated_empty
  have hseated : HoldsAt (Seated ∅) (scripted (opened Db.empty 0) []).tickClock.tickClock.tickClock := hempty
  have hearlier : trustedDims none earlierKey = some (earlierDims, earlierKey) := by decide +kernel
  have hdims : (dims, effKey) = (earlierDims, earlierKey) := Option.some.inj (htrusted.symm.trans hearlier)
  cases hdims
  have hbind : bindError (nameParams earlierDims) = none := by decide
  obtain ⟨ids, w', hok⟩ := hseated.resolves rfl hbind
  intro e w₁ herror
  have hboth := hok.symm.trans herror
  cases (Prod.ext_iff.mp hboth).1

theorem deletes_own_of_ownedRun_bucket :
    DeletesOwn (s3Source (fun _ => bucketOf earlierKey) []) {earlierKey} earlierKey
      (workItem oneTopicEnv (s3Source (fun _ => bucketOf earlierKey) []) .one (.catalog earlierKey)
        (scripted (opened Db.empty 0) [])).2 :=
  deletes_own_of_ownedRun ⟨0, ReflTransGen.single (WorkStep.item _ _ _ _ [] owned_bucketItem)⟩
    fun _ hother _ _ _ _ _ => Set.mem_singleton_iff.mp hother

end McapCatalog.Builder
