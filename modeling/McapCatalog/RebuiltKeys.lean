import McapCatalog.Coherence
import McapCatalog.Provenance
import McapCatalog.ReconcileView

/-!
# The key that a row is rebuilt to

There is no stored object key: a reader joins the names of a `files` row and rebuilds the key from them.  Both
`parse_hive_key` and the check of `resolve_key_dims` strip the leading slashes of a key, the object store does not.

* `OwnKeys` — sources whose objects are under their own keys, like `S3Source` and `GCSSource`;
* `rebuild_eq_iff` — **what resolves is rebuilt exactly if it does not start with a slash**;
* `Rebuilt`, `Unshared` — every row is rebuilt to the key of its object, and no other object goes to the row;
* `rebuilt_of_clearRun` — **both hold along runs that catalog no such key**, whatever fails in them, as long as the caches
  stay coherent;
* `slashRun_not_rebuilt` — the row of an object with a leading slash.
-/

namespace McapCatalog.Builder

open McapCatalog.PyText McapCatalog.PyError McapCatalog.KeyParse McapCatalog.McapSummary McapCatalog.Storage
open McapCatalog.Tables McapCatalog.RowidTable
open McapCatalog.Connection McapCatalog.CatalogDb McapCatalog.Reconcile McapCatalog.Worker
open McapCatalog.SurvivingState McapCatalog.SurvivingState.Comp
open Relation

/-- Nothing in a file overrides the key it is stored under. -/
def OwnKeys (source : Source) : Prop := ∀ t key, source.intendedKey t key = none

theorem ownKeys_s3Source (bucket : ℕ → Bucket) (keyPrefix : PyStr) : OwnKeys (s3Source bucket keyPrefix) := fun _ _ => rfl

/-! ### Keys -/

theorem lstrip_eq_self_iff (key : PyStr) : lstrip key (cp '/') = key ↔ startsWith key (py "/") = false := by
  have hstart : ∀ c (s : PyStr), startsWith (c :: s) (py "/") = decide (cp '/' = c) := by
    intro c s
    show (cp '/' == c && true) = _
    rw [Bool.and_true]
    rfl
  cases key with
  | nil => exact ⟨fun _ => rfl, fun _ => rfl⟩
  | cons c s =>
      rw [hstart]
      by_cases hc : c = cp '/'
      · have hshorter : (lstrip s (cp '/')).length ≤ s.length := (List.dropWhile_sublist _).length_le
        rw [hc, lstrip_cons_self]
        constructor
        · intro h
          rw [h, List.length_cons] at hshorter
          omega
        · intro h
          simp at h
      · rw [lstrip_cons_of_ne hc]
        simp [Ne.symm hc]

/-- **A key that resolves** is its own effective key, and is rebuilt exactly if it does not start with a slash. -/
theorem rebuild_eq_iff {key effKey : PyStr} {dims : Dims} (h : trustedDims none key = some (dims, effKey)) :
    effKey = key ∧ (rebuildHiveKey dims = key ↔ startsWith key (py "/") = false) := by
  have heff : effKey = key := by
    rw [trustedDims] at h
    split at h
    · cases h
    · split at h
      · cases h
      · exact (Prod.ext_iff.mp (Option.some.inj h)).2.symm
  have hround := (trustedDims_eq_some h).2
  rw [heff] at hround
  exact ⟨heff, by rw [hround, lstrip_eq_self_iff]⟩

/-- If the key resolves, it does not start with a slash. -/
def Slashless (key : PyStr) : Prop := ∀ trusted, trustedDims none key = some trusted → startsWith key (py "/") = false

/-! ### Rows -/

/-- **Every row is rebuilt to the key of the object it was cataloged from.** -/
def Rebuilt (db : Db) : Prop :=
  ∀ r ∈ db.files.rows, ∃ dims, db.namesOf r.key = some dims ∧ rebuildHiveKey dims = r.val.origin.effKey

/-- The object with this key is cataloged in the row. -/
def GoesTo (db : Db) (key : PyStr) (r : Row FileKey FileCols) : Prop :=
  ∃ dims, trustedDims none key = some (dims, key) ∧ fileKey db dims = some r.key

/-- **No two objects share a row**, among those whose keys are in `K`. -/
def Unshared (K : Set PyStr) (db : Db) : Prop :=
  ∀ r ∈ db.files.rows, ∀ key ∈ K, GoesTo db key r → key = r.val.origin.effKey

/-- What a row may be written from, so that it is rebuilt to its key. -/
def ownOrigins : Set Written :=
  {written | trustedDims none written.effKey = some (written.dims, written.effKey) ∧
    rebuildHiveKey written.dims = written.effKey}

theorem fromSource_subset_ownOrigins {source : Source} (hown : OwnKeys source) :
    fromSource source Slashless ⊆ ownOrigins := by
  intro written hfrom
  obtain ⟨key, hkey, _, _, hcame⟩ := hfrom
  obtain ⟨t, htrusted⟩ := hcame.dims
  rw [hown t key] at htrusted
  obtain ⟨heff, hiff⟩ := rebuild_eq_iff htrusted
  rw [← heff] at htrusted hiff
  exact ⟨htrusted, hiff.mpr (heff ▸ hkey _ (heff ▸ htrusted))⟩

/-! ### Items that catalog no key with a leading slash -/

/-- No key that the item catalogs starts with a slash. -/
def SlashlessItem (source : Source) (item : WorkItem) (w : World) : Prop :=
  match item with
  | .catalog path => Slashless (source.eventKey path)
  | .rescan => ∀ listings, source.listAll w.clock = .ok listings → ∀ lst ∈ listings, Slashless lst.key
  | _ => True

/-- The source that lists what it lists at the moment `t`, and nothing at any other. -/
def listedOnlyAt (source : Source) (t : ℕ) : Source :=
  { source with listAll := fun t' => if t' = t then source.listAll t' else .ok [] }

/-- A reconcile lists once, at its first moment. -/
theorem fullReconcile_listedOnlyAt (env : Env) (source : Source) (workers : Workers) (w : World) :
    fullReconcile env (listedOnlyAt source w.clock) workers w = fullReconcile env source workers w := by
  have hask : ask (listedOnlyAt source w.clock).listAll w = ask source.listAll w := by
    have hlist : (listedOnlyAt source w.clock).listAll w.clock = source.listAll w.clock := if_pos rfl
    rw [ask, ask, bind_of_ok (tick_apply w), bind_of_ok (tick_apply w), hlist]
  rw [fullReconcile, fullReconcile, bind_apply, bind_apply, hask]
  rfl

/-- The keys that the item catalogs are in `K`. -/
def CatalogsIn (K : Set PyStr) (source : Source) (item : WorkItem) (w : World) : Prop :=
  match item with
  | .catalog path => source.eventKey path ∈ K
  | .rescan => ∀ listings, source.listAll w.clock = .ok listings → ∀ lst ∈ listings, lst.key ∈ K
  | _ => True

theorem fromSource_listedOnlyAt (source : Source) (t : ℕ) (K : Set PyStr) :
    fromSource (listedOnlyAt source t) K ⊆ fromSource source K := by
  intro written hfrom
  obtain ⟨key, hkey, t₁, t₂, hcame⟩ := hfrom
  refine ⟨key, hkey, t₁, t₂, hcame.later, ?_, hcame.dims, hcame.reading⟩
  cases hcame.fingerprint with
  | inl hhead => exact Or.inl hhead
  | inr hlisted =>
      obtain ⟨listings, hlist, hmem⟩ := hlisted
      rw [listedOnlyAt] at hlist
      dsimp only at hlist
      split at hlist
      · exact Or.inr ⟨listings, hlist, hmem⟩
      · cases hlist
        exact absurd hmem List.not_mem_nil

section Items

variable {env : Env} {source : Source} {w : World}

/-- **One item** writes only from answers of the source for the keys it catalogs. -/
theorem bothIn_workItem {S : Set Written} {K : Set PyStr} (hS : fromSource source K ⊆ S) {workers : Workers}
    {item : WorkItem} (hitem : CatalogsIn K source item w) (hw : HoldsAt (BothIn S) w) :
    Leaves (HoldsAt (BothIn S)) (workItem env source workers item) w := by
  have hI := closed_bothIn S
  have hdispatch : Leaves (HoldsAt (BothIn S)) (dispatch env source workers item) w := by
    cases item with
    | tagEdit edit =>
        exact Keeps.leaves (Q := fun _ => True) ((keeps_handleTagEdit hI.tame edit).bind fun _ _ => keeps_pure trivial) hw
    | stop => exact hw
    | delete path =>
        exact Keeps.leaves (Q := fun _ => True) ((keeps_deleteByKey hI.tame _).bind fun _ _ => keeps_pure trivial) hw
    | catalog path =>
        have hcatalog : Keeps (BothIn S) 0 (catalogObject env (source.eventKey path) source none) fun _ => True :=
          keeps_catalogObject (hI.mono hS) hitem fun _ h => by cases h
        refine Keeps.leaves (Q := fun _ => True) (keeps_tick.bind fun t _ => ?_) hw
        split
        · exact hcatalog.bind fun _ _ => keeps_pure trivial
        · exact keeps_pure trivial
    | rescan =>
        have hlists : Lists (listedOnlyAt source w.clock) K := by
          intro t listings hlist lst hlst
          rw [listedOnlyAt] at hlist
          dsimp only at hlist
          split at hlist
          · rename_i ht
            exact hitem listings (ht ▸ hlist) lst hlst
          · cases hlist
            exact absurd hlst List.not_mem_nil
        have hrescan : Keeps (BothIn S) 0 (fullReconcile env (listedOnlyAt source w.clock) workers) fun _ => True :=
          keeps_fullReconcile (hI.mono ((fromSource_listedOnlyAt source w.clock K).trans hS)) hlists workers
        refine Leaves.bind ?_ fun _ _ _ h => h
        have hleft := hrescan.leaves hw
        rw [Leaves, fullReconcile_listedOnlyAt] at hleft
        exact hleft
  refine leaves_bind_of_ok (attempt_apply _ w) ?_
  cases (dispatch env source workers item w).1 with
  | ok reply => exact hdispatch
  | error e => exact hdispatch

/-- Every row of both databases was written from such an origin. -/
abbrev OwnAt (w : World) : Prop := BothIn ownOrigins w.conn.committed w.conn.working w.caches

/-- **One item** keeps the rows rebuilt. -/
theorem own_workItem (hown : OwnKeys source) {workers : Workers} {item : WorkItem} (hslash : SlashlessItem source item w)
    (hw : OwnAt w) : Leaves OwnAt (workItem env source workers item) w := by
  have hitem : CatalogsIn Slashless source item w := by cases item <;> exact hslash
  exact bothIn_workItem (fromSource_subset_ownOrigins hown) hitem hw

end Items

/-! ### Runs -/

/-- An item over an object store that fills the caches coherently and catalogs no key with a leading slash. -/
def RebuildClear (env : Env) (source : Source) (workers : Workers) (item : WorkItem) (w : World) : Prop :=
  OwnKeys source ∧ ClearItem env source workers item w ∧ SlashlessItem source item w

theorem WorkRun.mono {env : Env} {P P' : Source → Workers → WorkItem → World → Prop}
    (hP : ∀ source workers item w, P source workers item w → P' source workers item w) {w : World}
    (h : WorkRun env P w) : WorkRun env P' w := by
  obtain ⟨t, hrun⟩ := h
  refine ⟨t, ReflTransGen.mono (fun v v' hstep => ?_) _ _ hrun⟩
  cases hstep with
  | item source workers item v script hclear => exact WorkStep.item source workers item v script (hP _ _ _ _ hclear)
  | restart v => exact WorkStep.restart v

theorem ownAt_of_clearRun {env : Env} {w : World} (h : WorkRun env (RebuildClear env) w) : OwnAt w := by
  obtain ⟨t, hrun⟩ := h
  induction hrun with
  | refl => exact ⟨fun _ hr => absurd hr List.not_mem_nil, fun _ hr => absurd hr List.not_mem_nil⟩
  | @tail v _ _ hstep ih =>
      cases hstep with
      | item source workers item _ script hclear =>
          have hv : OwnAt (scripted v script) := ih
          exact own_workItem hclear.1 hclear.2.2 hv
      | restart => exact ⟨ih.1, ih.1⟩

/-- **Keys are rebuilt along clear runs** over object stores: every row's key is the one of its object, and no other
object without a leading slash goes to its row. -/
theorem rebuilt_of_clearRun {env : Env} (hinj : FingerprintInjective env) {w : World}
    (h : WorkRun env (RebuildClear env) w) :
    Rebuilt w.conn.committed ∧ Unshared Slashless w.conn.committed := by
  have hnamed := (soundAt_of_clearRun hinj (h.mono fun _ _ _ _ hclear => hclear.2.1)).committed.named
  have hown := (ownAt_of_clearRun h).1
  refine ⟨fun r hr => ⟨_, namesOf_fileKey (hnamed r hr), (hown r hr).2⟩, fun r hr key hkey hgoes => ?_⟩
  obtain ⟨dims, htrusted, hfile⟩ := hgoes
  have hdims : dims = r.val.origin.dims := fileKey_injective hfile (hnamed r hr)
  rw [← ((rebuild_eq_iff htrusted).2.mpr (hkey _ htrusted)), hdims]
  exact (hown r hr).2

/-! ### An object with a leading slash -/

def slashKey : PyStr := cp '/' :: earlierKey

/-- The world after that object was cataloged. -/
def afterSlash : World :=
  (workItem oneTopicEnv (s3Source (fun _ => bucketOf slashKey) []) .one (.catalog slashKey)
    (scripted (opened Db.empty 0) [])).2

theorem afterSlash_rows : afterSlash.conn.committed.files.rows.map (fun r => r.val.origin.effKey.head?) =
    [some (cp '/')] := by decide +kernel

/-- **The row of an object with a leading slash** is rebuilt to another key. -/
theorem slashRun_not_rebuilt :
    ¬∀ w, WorkRun oneTopicEnv (fun source _ _ _ => OwnKeys source) w → Rebuilt w.conn.committed := by
  intro hall
  have hrun : WorkRun oneTopicEnv (fun source _ _ _ => OwnKeys source) afterSlash :=
    ⟨0, ReflTransGen.single (WorkStep.item _ _ _ _ [] (ownKeys_s3Source _ _))⟩
  have hmem : some (cp '/') ∈ afterSlash.conn.committed.files.rows.map (fun r => r.val.origin.effKey.head?) := by
    rw [afterSlash_rows]
    exact List.mem_singleton_self _
  obtain ⟨r, hr, hslash⟩ := List.mem_map.mp hmem
  obtain ⟨dims, _, hrebuilt⟩ := hall afterSlash hrun r hr
  have hhead : (rebuildHiveKey dims).head? = some (cp 'c') := rfl
  rw [hrebuilt, hslash] at hhead
  exact absurd hhead (by decide)

/-- Cataloged under a key without one, and half deleted. -/
theorem rebuilt_of_clearRun_halfDeleted :
    Rebuilt halfDeleted.conn.committed ∧ Unshared Slashless halfDeleted.conn.committed := by
  have hslash : Slashless earlierKey := by
    intro _ _
    show startsWith earlierKey (py "/") = false
    decide
  exact rebuilt_of_clearRun fingerprintInjective_oneTopicEnv
    ⟨0, (ReflTransGen.single (WorkStep.item _ _ _ _ [] ⟨ownKeys_s3Source _ _, clearItem_earlierKey, hslash⟩)).tail
      (WorkStep.item _ _ (.delete earlierKey) _ _ ⟨ownKeys_s3Source _ _, trivial, trivial⟩)⟩

end McapCatalog.Builder
