import McapCatalog.Acts

/-!
# User tag edits

`update_tags` as a function of the database: it commits the whole edit or rolls all of it back.

* `tagSet`, `tagUnset`, `edited` — the edit, statement by statement;
* `updateTags_cases` — **the two exits** of `update_tags`;
* `lookup_edited` — an edit changes no other file's overrides;
* `worldInv_updateTags` — either exit keeps the invariant of the writer's world.
-/

namespace McapCatalog.Builder

open McapCatalog.PyText McapCatalog.PyError McapCatalog.Tables McapCatalog.RowidTable McapCatalog.KeyedRows
open McapCatalog.Connection McapCatalog.CatalogDb
open McapCatalog.SurvivingState McapCatalog.SurvivingState.Comp

/-- The database after a key was set. -/
def tagSet (fileId : ℕ) (now : ℤ) (db : Db) (kv : PyStr × PyStr) : Db :=
  { db with tagsOverride := db.tagsOverride.insert (fileId, kv.1) (some kv.2, now) }

/-- The database after a key was unset. -/
def tagUnset (fileId : ℕ) (now : ℤ) (db : Db) (key : PyStr) : Db :=
  if (db.tagsEmbedded.lookup (fileId, key)).isSome then
    { db with tagsOverride := db.tagsOverride.insert (fileId, key) (none, now) }
  else { db with tagsOverride := db.tagsOverride.erase (fileId, key) }

/-- The database after an edit. -/
def edited (fileId : ℕ) (now : ℤ) (setKv : List (PyStr × PyStr)) (unsetKeys : List PyStr) (db : Db) : Db :=
  unsetKeys.foldl (tagUnset fileId now) (setKv.foldl (tagSet fileId now) db)

/-- A change of the overrides of one file only, which refer to files that are there. -/
structure OnlyOverrides (fileId : ℕ) (db db' : Db) : Prop where
  only : ∃ overrides, db' = { db with tagsOverride := overrides }
  others : ∀ i k, i ≠ fileId → db'.tagsOverride.lookup (i, k) = db.tagsOverride.lookup (i, k)
  refs : (∀ i k, (db.tagsOverride.lookup (i, k)).isSome → (db.files.get i).isSome) →
    ∀ i k, (db'.tagsOverride.lookup (i, k)).isSome → (db.files.get i).isSome

theorem OnlyOverrides.refl (fileId : ℕ) (db : Db) : OnlyOverrides fileId db db :=
  ⟨⟨_, rfl⟩, fun _ _ _ => rfl, fun h => h⟩

theorem OnlyOverrides.trans {fileId : ℕ} {a b c : Db} (h : OnlyOverrides fileId a b)
    (h' : OnlyOverrides fileId b c) : OnlyOverrides fileId a c := by
  obtain ⟨⟨o, rfl⟩, ho, hr⟩ := h
  obtain ⟨⟨o', rfl⟩, ho', hr'⟩ := h'
  exact ⟨⟨_, rfl⟩, fun i k hi => (ho' i k hi).trans (ho i k hi), fun h => hr' (hr h)⟩

section Overrides

variable {fileId : ℕ} {now : ℤ} {db db' : Db}

theorem onlyOverrides_insert (hfile : (db.files.get fileId).isSome) (key : PyStr) (value : Option PyStr) :
    OnlyOverrides fileId db
      { db with tagsOverride := db.tagsOverride.insert (fileId, key) (value, now) } := by
  refine ⟨⟨_, rfl⟩, ?_, ?_⟩
  · intro i k hi
    exact AList.lookup_insert_ne fun heq => hi (Prod.ext_iff.mp heq).1
  · intro h i k hk
    by_cases hi : i = fileId
    · rw [hi]
      exact hfile
    · exact h i k (by
        rwa [show AList.lookup (i, k) _ = _ from
          AList.lookup_insert_ne fun heq => hi (Prod.ext_iff.mp heq).1] at hk)

theorem onlyOverrides_erase (key : PyStr) :
    OnlyOverrides fileId db { db with tagsOverride := db.tagsOverride.erase (fileId, key) } := by
  refine ⟨⟨_, rfl⟩, ?_, ?_⟩
  · intro i k hi
    exact AList.lookup_erase_ne fun heq => hi (Prod.ext_iff.mp heq).1
  · intro h i k hk
    by_cases heq : (i, k) = (fileId, key)
    · rw [heq] at hk
      have hnone : AList.lookup (fileId, key) (db.tagsOverride.erase (fileId, key)) = none :=
        AList.lookup_erase _ _
      rw [hnone] at hk
      cases hk
    · exact h i k (by rwa [show AList.lookup (i, k) _ = _ from AList.lookup_erase_ne heq] at hk)

end Overrides

/-! ### The transaction -/

section Run

variable {w : World} {fileId : ℕ} {now : ℤ}

/-- **One key set**: stored, or refused with nothing changed. -/
theorem setTag_cases (hq : w.Quiet) (kv : PyStr × PyStr) :
    (setTag fileId now kv w = (.ok (), w.setWorking (tagSet fileId now w.conn.working kv)) ∧
        OnlyOverrides fileId w.conn.working (tagSet fileId now w.conn.working kv)) ∨
      ∃ e, setTag fileId now kv w = (.error e, w) := by
  rcases hb : bindError [.text kv.1, .text kv.2, .int now] with _ | e
  · rcases hfile : (w.conn.working.files.get fileId).isSome with _ | _
    · exact Or.inr ⟨_, executeChecked_error hq hb (by
        rw [Db.upsertOverride, Db.references, hfile]; rfl)⟩
    · exact Or.inl ⟨executeChecked_ok hq hb (by
        rw [Db.upsertOverride, Db.references, hfile]; rfl), onlyOverrides_insert hfile kv.1 (some kv.2)⟩
  · exact Or.inr ⟨e, executeChecked_unbound hq hb _⟩

/-- **One key unset**: masked or dropped, or refused with nothing changed. -/
theorem unsetTag_cases (hq : w.Quiet) (key : PyStr) :
    (unsetTag fileId now key w = (.ok (), w.setWorking (tagUnset fileId now w.conn.working key)) ∧
        OnlyOverrides fileId w.conn.working (tagUnset fileId now w.conn.working key)) ∨
      ∃ e, unsetTag fileId now key w = (.error e, w) := by
  rcases hb : bindError [.text key] with _ | e
  · rw [unsetTag, bind_of_ok (query_ok hq hb _), tagUnset]
    rcases hemb : (w.conn.working.tagsEmbedded.lookup (fileId, key)).isSome with _ | _
    · exact Or.inl ⟨execute_ok hq hb _, onlyOverrides_erase key⟩
    · rw [if_pos rfl, if_pos rfl]
      rcases hb' : bindError [.text key, .int now] with _ | e
      · rcases hfile : (w.conn.working.files.get fileId).isSome with _ | _
        · exact Or.inr ⟨_, executeChecked_error hq hb' (by
            rw [Db.upsertOverride, Db.references, hfile]; rfl)⟩
        · exact Or.inl ⟨executeChecked_ok hq hb' (by
            rw [Db.upsertOverride, Db.references, hfile]; rfl), onlyOverrides_insert hfile key none⟩
      · exact Or.inr ⟨e, executeChecked_unbound hq hb' _⟩
  · exact Or.inr ⟨e, by rw [unsetTag]; exact bind_of_error (query_unbound hq hb _)⟩

/-- A loop of such statements does all of them, or stops with only the connection's view changed. -/
theorem each_edit_cases {α : Type} {f : α → Py Unit} {g : Db → α → Db}
    (hf : ∀ (w : World) (a : α), w.Quiet →
      (f a w = (.ok (), w.setWorking (g w.conn.working a)) ∧
        OnlyOverrides fileId w.conn.working (g w.conn.working a)) ∨ ∃ e, f a w = (.error e, w))
    (as : List α) (hq : w.Quiet) :
    (each f as w = (.ok (), w.setWorking (as.foldl g w.conn.working)) ∧
        OnlyOverrides fileId w.conn.working (as.foldl g w.conn.working)) ∨
      ∃ e db', each f as w = (.error e, w.setWorking db') := by
  induction as generalizing w with
  | nil => exact Or.inl ⟨rfl, OnlyOverrides.refl _ _⟩
  | cons a as ih =>
      rw [each_cons]
      rcases hf w a hq with ⟨hrun, honly⟩ | ⟨e, hrun⟩
      · rw [bind_of_ok hrun]
        rcases ih (hq.setWorking (g w.conn.working a)) with ⟨hrest, honly'⟩ | ⟨e, db', hrest⟩
        · exact Or.inl ⟨hrest, honly.trans honly'⟩
        · exact Or.inr ⟨e, db', hrest⟩
      · exact Or.inr ⟨e, w.conn.working, by rw [bind_of_error hrun]; rfl⟩

/-- **The two exits of `update_tags`**: the whole edit is committed, or all of it is rolled back. -/
theorem updateTags_cases (env : Env) (hq : w.Quiet) (fileId : ℕ) (setKv : List (PyStr × PyStr))
    (unsetKeys : List PyStr) :
    (updateTags env fileId setKv unsetKeys w =
        (.ok (), (w.tickClock.setWorking (edited fileId (env.timeNs w.clock) setKv unsetKeys
          w.conn.working)).commitWorking) ∧
        OnlyOverrides fileId w.conn.working
          (edited fileId (env.timeNs w.clock) setKv unsetKeys w.conn.working)) ∨
      ∃ e, updateTags env fileId setKv unsetKeys w = (.error e, w.tickClock.rollBackWorking) := by
  rw [updateTags, bind_of_ok (nowNs_apply env w)]
  rcases each_edit_cases (fun w kv hq => setTag_cases hq kv) setKv hq.tickClock with
    ⟨hset, honly⟩ | ⟨e, db', hset⟩
  · have hbody : (each (setTag fileId (env.timeNs w.clock)) setKv >>= fun _ =>
        each (unsetTag fileId (env.timeNs w.clock)) unsetKeys) w.tickClock = _ := bind_of_ok hset
    rcases each_edit_cases (fun w key hq => unsetTag_cases hq key) unsetKeys (hq.tickClock.setWorking _) with
      ⟨hunset, honly'⟩ | ⟨e, db', hunset⟩
    · refine Or.inl ⟨?_, honly.trans honly'⟩
      exact withConn_ok (hbody.trans hunset) hq
    · have hback := withConn_error (hbody.trans hunset)
      exact Or.inr ⟨e, hback⟩
  · have hbody : (each (setTag fileId (env.timeNs w.clock)) setKv >>= fun _ =>
        each (unsetTag fileId (env.timeNs w.clock)) unsetKeys) w.tickClock =
          (.error e, w.tickClock.setWorking db') := bind_of_error hset
    have hback := withConn_error hbody
    exact Or.inr ⟨e, hback⟩

/-- A committed edit keeps the invariant of the writer's world. -/
theorem worldInv_edited {env : Env} (hw : WorldInv env w) {db' : Db}
    (h : OnlyOverrides fileId w.conn.working db') : WorldInv env (w.setWorking db').commitWorking := by
  obtain ⟨h1, h2, h3⟩ := topicsExact_iff.mp hw.exact
  have hinv : CatalogInv env db' := by
    have hrefs := h.refs hw.working.overrideRefs
    obtain ⟨o, rfl⟩ := h.only
    exact hw.working.overrides hrefs
  refine ⟨hw.quiet, topicsExact_iff.mpr ?_, hinv, hinv, Behind.refl _⟩
  obtain ⟨o, rfl⟩ := h.only
  exact ⟨h1, h2, h3⟩

/-- So does a rollback. -/
theorem worldInv_rollBack {env : Env} (hw : WorldInv env w) : WorldInv env w.rollBackWorking := by
  obtain ⟨h1, h2, h3⟩ := topicsExact_iff.mp hw.exact
  refine ⟨hw.quiet, topicsExact_iff.mpr ⟨?_, ?_, ?_⟩, hw.committed, hw.committed, Behind.refl _⟩
  · exact h1.trans (by rw [hw.behind.topicNames]; rfl)
  · exact h2.trans (by rw [hw.behind.schemas]; rfl)
  · exact h3.trans (by rw [hw.behind.topicSets]; rfl)

/-- **Either exit keeps the invariant of the writer's world.** -/
theorem worldInv_updateTags {env : Env} (hw : WorldInv env w) (fileId : ℕ) (setKv : List (PyStr × PyStr))
    (unsetKeys : List PyStr) : WorldInv env (updateTags env fileId setKv unsetKeys w).2 := by
  have htick : WorldInv env w.tickClock := (Act.tick w).worldInv hw
  rcases updateTags_cases env hw.quiet fileId setKv unsetKeys with ⟨hrun, honly⟩ | ⟨e, hrun⟩
  · rw [hrun]
    exact worldInv_edited htick honly
  · rw [hrun]
    exact worldInv_rollBack htick

end Run

end McapCatalog.Builder
