import McapCatalog.Execution

/-!
# What the resolvers do

* `Lookup.Exact` — the cache of a lookup table is the index of the table the connection sees;
* `resolveLookup_ok`, `resolveLookup_unbound` — from an exact cache a resolver returns the row's id, inserting
  it under the next free one if it is new, and leaves the cache exact;
* `resolveLookup_cases` — from **any** cache it leaves the world alone or stores one row and one entry;
* `World.onTopics` — a world whose three topic caches are exact, as a function of the connection's view, and
  the topic resolvers as functions on it.
-/

namespace McapCatalog.CatalogDb

open McapCatalog.PyText McapCatalog.PyError McapCatalog.Tables McapCatalog.RowidTable
open McapCatalog.Connection McapCatalog.SurvivingState McapCatalog.SurvivingState.Comp

namespace Lookup

variable {κ : Type} [DecidableEq κ]

/-- The cache is the index of the table. -/
def Exact (L : Lookup κ) (w : World) : Prop := L.cache w.caches = (L.table w.conn.working).idOf

/-- Every stored key binds. -/
def Bound (L : Lookup κ) (db : Db) : Prop := ∀ r ∈ (L.table db).rows, bindError (L.params r.key) = none

/-- The database after a key was resolved. -/
def resolved (L : Lookup κ) (key : κ) (db : Db) : Db :=
  L.setTable db ((L.table db).insertOrIgnore key ())

/-- The id a key is resolved to. -/
def newId (L : Lookup κ) (key : κ) (db : Db) : ℕ := ((L.table db).idOf key).getD (L.table db).nextId

/-- The world after a key was resolved from an exact cache. -/
def grow (L : Lookup κ) (key : κ) (w : World) : World :=
  (w.setWorking (L.resolved key w.conn.working)).setCaches
    (L.setCache w.caches (L.table (L.resolved key w.conn.working)).idOf)

theorem table_resolved (L : Lookup κ) (key : κ) (db : Db) :
    L.table (L.resolved key db) = (L.table db).insertOrIgnore key () :=
  L.table_setTable _ _

theorem idOf_resolved (L : Lookup κ) (key : κ) (db : Db) :
    (L.table (L.resolved key db)).idOf key = some (L.newId key db) := by
  rw [table_resolved, Table.idOf_insertOrIgnore_self]
  rfl

theorem extends_resolved (L : Lookup κ) (key : κ) (db : Db) :
    (L.table db).Extends (L.table (L.resolved key db)) := by
  rw [table_resolved]
  exact Table.extends_insertOrIgnore

end Lookup

variable {κ : Type} [DecidableEq κ] {L : Lookup κ} {key : κ} {w : World}

/-- A key that is there already resolves to the same database. -/
theorem Lookup.resolved_of_idOf {db : Db} {i : ℕ} (h : (L.table db).idOf key = some i) :
    L.resolved key db = db := by
  have hfind : (L.table db).find key ≠ none := by
    intro hn
    rw [Table.idOf_eq_none_iff.mpr hn] at h
    cases h
  rw [Lookup.resolved, Table.insertOrIgnore, dif_neg hfind, L.setTable_table]

theorem Lookup.grow_of_idOf (hx : L.Exact w) {i : ℕ} (h : (L.table w.conn.working).idOf key = some i) :
    L.grow key w = w := by
  rw [Lookup.grow, Lookup.resolved_of_idOf h, ← hx, L.setCache_cache]
  rfl

/-- The miss branch of a resolver, once the insert goes through. -/
theorem resolveLookup_miss (hq : w.Quiet) (hc : L.cache w.caches key = none)
    (hb : bindError (L.params key) = none)
    (hf : ((L.table w.conn.working).find key).isSome ∨ L.foreignKey w.conn.working key = true) :
    resolveLookup L key w = (.ok (L.newId key w.conn.working),
      (w.setWorking (L.resolved key w.conn.working)).setCaches
        (L.remember key (L.newId key w.conn.working) w.caches)) := by
  have hrun : L.insertOrIgnore key w.conn.working = .ok (L.resolved key w.conn.working) := by
    rw [Lookup.insertOrIgnore, if_pos (by simpa using hf)]
    rfl
  have hid := L.idOf_resolved key w.conn.working
  rw [resolveLookup, bind_of_ok (look_apply w)]
  simp only [hc]
  rw [bind_of_ok (executeChecked_ok hq hb hrun), bind_of_ok (queryId_ok (hq.setWorking _) hb hid),
    bind_of_ok (change_apply _ _)]
  rfl

/-- **A resolver on an exact cache.** -/
theorem resolveLookup_ok (hq : w.Quiet) (hx : L.Exact w) (hb : bindError (L.params key) = none)
    (hf : ((L.table w.conn.working).find key).isSome ∨ L.foreignKey w.conn.working key = true) :
    resolveLookup L key w = (.ok (L.newId key w.conn.working), L.grow key w) := by
  rcases hid : (L.table w.conn.working).idOf key with _ | i
  · have hc : L.cache w.caches key = none := by rw [hx, hid]
    have hupd : Function.update (L.cache w.caches) key (some (L.newId key w.conn.working)) =
        (L.table (L.resolved key w.conn.working)).idOf := by
      have hnew : L.newId key w.conn.working = (L.table w.conn.working).nextId := by
        rw [Lookup.newId, hid]
        rfl
      rw [L.table_resolved, Table.idOf_insertOrIgnore_of_find (Table.idOf_eq_none_iff.mp hid), hx, hnew]
    rw [resolveLookup_miss hq hc hb hf, Lookup.remember, hupd]
    rfl
  · have hc : L.cache w.caches key = some i := by rw [hx, hid]
    rw [Lookup.grow_of_idOf hx hid, Lookup.newId, hid, resolveLookup, bind_of_ok (look_apply w)]
    simp only [hc]
    rfl

/-- A key that does not bind is not in the table, so the insert is tried and raises. -/
theorem resolveLookup_unbound (hq : w.Quiet) (hx : L.Exact w) (hbound : L.Bound w.conn.working)
    {e : PyErr} (hb : bindError (L.params key) = some e) :
    resolveLookup L key w = (.error e, w) := by
  have hc : L.cache w.caches key = none := by
    rw [hx]
    rcases hid : (L.table w.conn.working).idOf key with _ | i
    · rfl
    · obtain ⟨r, hr, rfl⟩ := Option.map_eq_some_iff.mp hid
      obtain ⟨hmem, rfl⟩ := Table.find_eq_some_iff.mp hr
      rw [hbound r hmem] at hb
      cases hb
  rw [resolveLookup, bind_of_ok (look_apply w)]
  simp only [hc]
  exact bind_of_error (executeChecked_unbound hq hb _)

/-- **A resolver on any cache**: nothing happens, or one row and one entry are stored. -/
theorem resolveLookup_cases (L : Lookup κ) (key : κ) (hq : w.Quiet) :
    (resolveLookup L key w).2 = w ∨
      (bindError (L.params key) = none ∧
        (((L.table w.conn.working).find key).isSome ∨ L.foreignKey w.conn.working key = true) ∧
        (resolveLookup L key w).2 = (w.setWorking (L.resolved key w.conn.working)).setCaches
          (L.remember key (L.newId key w.conn.working) w.caches)) := by
  rcases hc : L.cache w.caches key with _ | i
  · by_cases hf : ((L.table w.conn.working).find key).isSome ∨ L.foreignKey w.conn.working key = true
    · rcases hb : bindError (L.params key) with _ | e
      · exact Or.inr ⟨rfl, hf, by rw [resolveLookup_miss hq hc hb hf]⟩
      · left
        rw [resolveLookup, bind_of_ok (look_apply w)]
        simp only [hc]
        rw [bind_of_error (executeChecked_unbound hq hb _)]
    · left
      have hrun : L.insertOrIgnore key w.conn.working = .error Db.foreignKeyFailed := by
        rw [Lookup.insertOrIgnore, if_neg (by simpa using hf)]
      rw [resolveLookup, bind_of_ok (look_apply w)]
      simp only [hc]
      rcases hb : bindError (L.params key) with _ | e
      · rw [bind_of_error (executeChecked_error hq hb hrun)]
      · rw [bind_of_error (executeChecked_unbound hq hb _)]
  · left
    rw [resolveLookup, bind_of_ok (look_apply w)]
    simp only [hc]
    rfl

/-! ### The topic resolvers -/

/-- The world `w` with the connection's view replaced by `db` and the three topic caches exact for it. -/
def onTopics (w : World) (db : Db) : World :=
  (w.setWorking db).setCaches
    { w.caches with
      topic := db.topicNames.idOf
      schema := db.schemas.idOf
      topicSet := db.topicSets.idOf }

end McapCatalog.CatalogDb
