import McapCatalog.TagEdits
import McapCatalog.Worker

/-!
# Runs of the writer

A run is a sequence of calls on one catalog, with restarts in between.  A call may raise: what it did to the
world stays done, and the run goes on with the next call.

* `Call`, `Call.run` — the calls and what each does to the world, in both exits;
* `Reached` — the worlds some run reaches from an empty catalog;
* `Reached.worldInv` — **every reached world has the invariant of the writer's world**.
-/

namespace McapCatalog.Runs

open McapCatalog.PyText McapCatalog.PyError McapCatalog.Storage McapCatalog.Tables McapCatalog.Connection
open McapCatalog.CatalogDb McapCatalog.Builder McapCatalog.Reconcile McapCatalog.Worker

/-- One call on the catalog. -/
inductive Call where
  | catalogObject (key : PyStr) (source : Source) (stat : Option Stat)
  | applyExtract (ex : Extract)
  | deleteByKey (key : PyStr)
  | fullReconcile (source : Source) (workers : Workers)
  | updateTags (fileId : ℕ) (setKv : List (PyStr × PyStr)) (unsetKeys : List PyStr)
  | restart

/-- The world after a call, whether it returned or raised. -/
def Call.run (env : Env) (w : World) : Call → World
  | .catalogObject key source stat => (Builder.catalogObject env key source stat w).2
  | .applyExtract ex => (Builder.applyExtract env ex w).2
  | .deleteByKey key => (Builder.deleteByKey key w).2
  | .fullReconcile source workers => (Reconcile.fullReconcile env source workers w).2
  | .updateTags fileId setKv unsetKeys => (CatalogDb.updateTags env fileId setKv unsetKeys w).2
  | .restart => Worker.restart w

/-- The worlds a run from an empty catalog reaches. -/
inductive Reached (env : Env) : World → Prop where
  | empty (t : ℕ) : Reached env (opened Db.empty t)
  | call {w : World} (h : Reached env w) (c : Call) : Reached env (c.run env w)

theorem opened_caches (db : Db) (t : ℕ) : (opened db t).caches = Caches.of db := by
  rw [opened]
  simp only [loadTable_eq_idOf]
  rfl

/-- Opening a well-formed database gives a well-formed world. -/
theorem worldInv_opened {env : Env} {db : Db} (h : CatalogInv env db) (t : ℕ) : WorldInv env (opened db t) where
  quiet := rfl
  exact := topicsExact_iff.mpr (by rw [opened_caches]; exact ⟨rfl, rfl, rfl⟩)
  committed := h
  working := h
  behind := Behind.refl db

/-- **One call keeps the invariant of the writer's world.** -/
theorem Call.worldInv {env : Env} (hinj : FingerprintInjective env) {w : World} (hw : WorldInv env w)
    (c : Call) : WorldInv env (c.run env w) := by
  cases c with
  | catalogObject key source stat => exact (builds_catalogObject hinj key source stat w hw).1
  | applyExtract ex => exact (builds_applyExtract hinj ex w hw).1
  | deleteByKey key => exact (builds_deleteByKey key w hw).1
  | fullReconcile source workers => exact (builds_fullReconcile hinj source workers w hw).1
  | updateTags fileId setKv unsetKeys => exact worldInv_updateTags hw fileId setKv unsetKeys
  | restart => exact worldInv_opened hw.committed w.clock

/-- **Every reached world has the invariant.** -/
theorem Reached.worldInv {env : Env} (hinj : FingerprintInjective env) {w : World} (h : Reached env w) :
    WorldInv env w := by
  induction h with
  | empty t => exact worldInv_opened (catalogInv_empty env) t
  | call _ c ih => exact c.worldInv hinj ih

end McapCatalog.Runs
