import McapCatalog.WorkerRuns
import McapCatalog.Faults

/-!
# What a tag edit means for the reader

A reader sees the view `tags_effective`, a union of two branches over two tables; an edit chooses between an upsert, a mask
and a delete by what is embedded at that moment.

* `editOverrides_unset`, `editOverrides_set`, `editOverrides_other` — an edit key by key, whatever overlaps in it;
* `nodup_tagsEffective` — a key has at most one entry;
* `tags_after_update` — **the effective tags after an edit**, and after any later rewrite of the embedded ones; an edit that
  raises leaves the overrides as they were.
-/

namespace McapCatalog.Runs

open McapCatalog.PyText McapCatalog.PyError McapCatalog.Tables McapCatalog.RowidTable McapCatalog.KeyedRows
open McapCatalog.Connection McapCatalog.CatalogDb McapCatalog.Builder McapCatalog.Storage

/-! ### An edit key by key -/

section Keys

variable {embedded : PyStr → Bool} {now : ℤ} {setKv : List (PyStr × PyStr)} {unsetKeys : List PyStr} {key value : PyStr}
  {overrides : Overrides}

/-- A loop that stores one value for each key. -/
theorem foldl_update_apply {α κ β : Type} [DecidableEq κ] (name : α → κ) (stored : α → β) (as : List α) (f : κ → β) (k : κ)
    (h : ∀ a ∈ as, name a ≠ k) : as.foldl (fun f a => Function.update f (name a) (stored a)) f k = f k := by
  induction as generalizing f with
  | nil => rfl
  | cons a as ih =>
      rw [List.foldl_cons, ih _ fun a' ha' => h a' (List.mem_cons_of_mem _ ha'),
        Function.update_of_ne (h a List.mem_cons_self).symm]

/-- What it leaves under a key is what it stored last there. -/
theorem foldl_update_of_mem {α κ β : Type} [DecidableEq κ] (name : α → κ) (stored : α → β) {as : List α} (f : κ → β)
    {a : α} (ha : a ∈ as) (hsame : ∀ a' ∈ as, name a' = name a → stored a' = stored a) :
    as.foldl (fun f a => Function.update f (name a) (stored a)) f (name a) = stored a := by
  induction as using List.reverseRecOn generalizing a with
  | nil => exact absurd ha List.not_mem_nil
  | append_singleton as last ih =>
      rw [List.foldl_append, List.foldl_cons, List.foldl_nil]
      by_cases hlast : name last = name a
      · rw [hlast, Function.update_self]
        exact hsame last (List.mem_append_right _ List.mem_cons_self) hlast
      · rw [Function.update_of_ne (Ne.symm hlast)]
        cases List.mem_append.mp ha with
        | inl hold => exact ih hold fun a' ha' => hsame a' (List.mem_append_left _ ha')
        | inr hnew => exact absurd (congrArg name (List.mem_singleton.mp hnew).symm) hlast

/-- **An unset key** is masked if it is embedded, and has no override else, whatever was set. -/
theorem editOverrides_unset (h : key ∈ unsetKeys) :
    editOverrides embedded now setKv unsetKeys overrides key = if embedded key then some (none, now) else none :=
  foldl_update_of_mem id (fun key => if embedded key then some (none, now) else none) _ h fun key' _ hsame => by
    rw [show key' = key from hsame]

/-- **A set key** that is not unset has its value. -/
theorem editOverrides_set (hnodup : (setKv.map Prod.fst).Nodup) (h : (key, value) ∈ setKv) (hset : key ∉ unsetKeys) :
    editOverrides embedded now setKv unsetKeys overrides key = some (some value, now) := by
  have hunset := foldl_update_apply id (fun key => if embedded key then some (none, now) else none) unsetKeys
    (setKv.foldl (fun (o : Overrides) kv => Function.update o kv.1 (some (some kv.2, now))) overrides) key
    fun key' hmem heq => hset (heq ▸ hmem)
  refine hunset.trans (foldl_update_of_mem Prod.fst (fun kv => some (some kv.2, now)) _ h fun kv hkv hsame => ?_)
  rw [List.inj_on_of_nodup_map hnodup hkv h hsame]

/-- **Any other key** keeps its override. -/
theorem editOverrides_other (hset : key ∉ setKv.map Prod.fst) (hunset : key ∉ unsetKeys) :
    editOverrides embedded now setKv unsetKeys overrides key = overrides key := by
  have hkept := foldl_update_apply id (fun key => if embedded key then some (none, now) else none) unsetKeys
    (setKv.foldl (fun (o : Overrides) kv => Function.update o kv.1 (some (some kv.2, now))) overrides) key
    fun key' hmem heq => hunset (heq ▸ hmem)
  exact hkept.trans (foldl_update_apply Prod.fst (fun kv => some (some kv.2, now)) setKv overrides key
    fun kv hmem heq => hset (heq ▸ List.mem_map_of_mem hmem))

end Keys

/-! ### The view -/

section View

variable {db db' : Db} {i : ℕ}

/-- **A key has at most one entry**: an embedded tag shows only where there is no override. -/
theorem nodup_tagsEffective (db : Db) (i : ℕ) : ((db.tagsEffective i).map Prod.fst).Nodup := by
  have hoverrides := nodup_under db.tagsOverride i
  have hembedded := nodup_under db.tagsEmbedded i
  rw [Db.tagsEffective, List.map_append, List.nodup_append]
  refine ⟨?_, ?_, ?_⟩
  · rw [List.map_filterMap]
    refine (hoverrides.sublist ?_)
    induction under db.tagsOverride i with
    | nil => exact List.Sublist.slnil
    | cons e es ih =>
        rw [List.filterMap_cons, List.map_cons]
        cases he : e.2.1 with
        | none => simpa [he] using ih.cons _
        | some value => simpa [he] using ih
  · rw [List.map_map]
    exact hembedded.sublist (List.filter_sublist.map _)
  · intro key hover key' hemb hsame
    obtain ⟨⟨_, value, shown⟩, hmem, rfl⟩ := List.mem_map.mp hover
    obtain ⟨⟨_, value', t⟩, hrow, hshown⟩ := List.mem_filterMap.mp hmem
    obtain ⟨_, rfl, heq⟩ := Option.map_eq_some_iff.mp hshown
    cases heq
    obtain ⟨_, hmem', rfl⟩ := List.mem_map.mp hemb
    obtain ⟨e, hfiltered, rfl⟩ := List.mem_map.mp hmem'
    have hnone := (List.mem_filter.mp hfiltered).2
    dsimp only at hsame
    rw [← hsame, mem_under.mp hrow] at hnone
    exact absurd hnone (by simp)

/-- A loop keeps what each of its steps keeps. -/
theorem foldl_keeps {α β : Type} {f : Db → α → Db} (kept : Db → β) (h : ∀ db a, kept (f db a) = kept db) (as : List α)
    (db : Db) : kept (as.foldl f db) = kept db := by
  induction as generalizing db with
  | nil => rfl
  | cons a as ih => rw [List.foldl_cons, ih, h]

theorem tagsEmbedded_edited (now : ℤ) (setKv : List (PyStr × PyStr)) (unsetKeys : List PyStr) (db : Db) :
    (edited i now setKv unsetKeys db).tagsEmbedded = db.tagsEmbedded :=
  (foldl_keeps Db.tagsEmbedded (tagsEmbedded_tagUnset now) unsetKeys _).trans
    (foldl_keeps Db.tagsEmbedded (tagsEmbedded_tagSet now) setKv db)

/-- **An edit reaches one file only.** -/
theorem overridesOf_edited_ne {j : ℕ} (hj : j ≠ i) (now : ℤ) (setKv : List (PyStr × PyStr)) (unsetKeys : List PyStr)
    (db : Db) : overridesOf (edited i now setKv unsetKeys db) j = overridesOf db j := by
  have hset : ∀ db kv, overridesOf (tagSet i now db kv) j = overridesOf db j := by
    intro db kv
    funext key
    exact AList.lookup_insert_ne fun h => hj (Prod.ext_iff.mp h).1
  have hunset : ∀ db key, overridesOf (tagUnset i now db key) j = overridesOf db j := by
    intro db key
    funext key'
    unfold tagUnset
    split
    · exact AList.lookup_insert_ne fun h => hj (Prod.ext_iff.mp h).1
    · exact AList.lookup_erase_ne fun h => hj (Prod.ext_iff.mp h).1
  exact (foldl_keeps (overridesOf · j) hunset unsetKeys _).trans (foldl_keeps (overridesOf · j) hset setKv db)

theorem overridesOf_congr (h : db'.tagsOverride = db.tagsOverride) : overridesOf db' i = overridesOf db i := by
  funext key
  rw [overridesOf, overridesOf, h]

/-- The view reads the overrides and the embedded tags of its file, nothing else. -/
theorem mem_tagsEffective_congr (hover : overridesOf db' i = overridesOf db i)
    (hemb : ∀ key, db'.tagsEmbedded.lookup (i, key) = db.tagsEmbedded.lookup (i, key)) (tag : PyStr × PyStr × Bool) :
    tag ∈ db'.tagsEffective i ↔ tag ∈ db.tagsEffective i := by
  obtain ⟨key, value, isOverride⟩ := tag
  rw [mem_tagsEffective, mem_tagsEffective, hover, hemb]

variable {now : ℤ} {setKv : List (PyStr × PyStr)} {unsetKeys : List PyStr} {key value : PyStr} {isOverride : Bool}

/-- **A key that is unset shows nothing**, embedded or not, set or not. -/
theorem not_mem_of_unset (h : key ∈ unsetKeys) :
    (key, value, isOverride) ∉ (edited i now setKv unsetKeys db).tagsEffective i := by
  rw [mem_tagsEffective, overridesOf_edited, editOverrides_unset h, tagsEmbedded_edited]
  by_cases hemb : (db.tagsEmbedded.lookup (i, key)).isSome = true
  · rw [if_pos hemb]
    simp
  · rw [if_neg hemb, Option.not_isSome_iff_eq_none.mp hemb]
    simp

/-- **A key that is set shows its value**, as an override. -/
theorem mem_iff_of_set {shown : PyStr} (hnodup : (setKv.map Prod.fst).Nodup) (h : (key, value) ∈ setKv)
    (hset : key ∉ unsetKeys) :
    (key, shown, isOverride) ∈ (edited i now setKv unsetKeys db).tagsEffective i ↔ shown = value ∧ isOverride = true := by
  rw [mem_tagsEffective, overridesOf_edited, editOverrides_set hnodup h hset]
  simp only [Option.some.injEq, eq_comm]

/-- **Any other key shows what it showed.** -/
theorem mem_iff_of_other (hset : key ∉ setKv.map Prod.fst) (hunset : key ∉ unsetKeys) :
    (key, value, isOverride) ∈ (edited i now setKv unsetKeys db).tagsEffective i ↔
      (key, value, isOverride) ∈ db.tagsEffective i := by
  rw [mem_tagsEffective, mem_tagsEffective, overridesOf_edited, editOverrides_other hset hunset, tagsEmbedded_edited]

end View

/-! ### The call -/

/-- **What an edit means**: the effective tags of the file it is for, and of every other file. -/
structure TagsEdited (fileId : ℕ) (setKv : List (PyStr × PyStr)) (unsetKeys : List PyStr) (before after : Db) : Prop where
  distinct : ((after.tagsEffective fileId).map Prod.fst).Nodup
  unset : ∀ key ∈ unsetKeys, ∀ value isOverride, (key, value, isOverride) ∉ after.tagsEffective fileId
  set : ∀ kv ∈ setKv, kv.1 ∉ unsetKeys → ∀ value isOverride,
    (kv.1, value, isOverride) ∈ after.tagsEffective fileId ↔ value = kv.2 ∧ isOverride = true
  rest : ∀ key ∉ setKv.map Prod.fst, key ∉ unsetKeys → ∀ value isOverride,
    (key, value, isOverride) ∈ after.tagsEffective fileId ↔ (key, value, isOverride) ∈ before.tagsEffective fileId
  others : ∀ i ≠ fileId, ∀ tag, tag ∈ after.tagsEffective i ↔ tag ∈ before.tagsEffective i
  masked : ∀ rewritten : Db, rewritten.tagsOverride = after.tagsOverride → ∀ key ∈ unsetKeys,
    (before.tagsEmbedded.lookup (fileId, key)).isSome → ∀ value isOverride,
      (key, value, isOverride) ∉ rewritten.tagsEffective fileId
  lasting : ∀ rewritten : Db, rewritten.tagsOverride = after.tagsOverride → ∀ kv ∈ setKv, kv.1 ∉ unsetKeys →
    ∀ value isOverride, (kv.1, value, isOverride) ∈ rewritten.tagsEffective fileId ↔ value = kv.2 ∧ isOverride = true

/-- The statements of an edit come to its meaning, whatever overlaps in it. -/
theorem tagsEdited_edited {setKv : List (PyStr × PyStr)} (hdict : (setKv.map Prod.fst).Nodup) (unsetKeys : List PyStr)
    (fileId : ℕ) (now : ℤ) (db : Db) :
    TagsEdited fileId setKv unsetKeys db (edited fileId now setKv unsetKeys db) where
  distinct := nodup_tagsEffective _ _
  unset := fun key hkey value isOverride => not_mem_of_unset hkey
  set := fun kv hkv hset value isOverride => mem_iff_of_set hdict hkv hset
  rest := fun key hset hunset value isOverride => mem_iff_of_other hset hunset
  others := by
    intro i hi tag
    refine mem_tagsEffective_congr (overridesOf_edited_ne hi _ _ _ _) (fun key => ?_) tag
    rw [tagsEmbedded_edited]
  masked := by
    intro rewritten hsame key hkey hemb value isOverride
    rw [mem_tagsEffective, overridesOf_congr hsame, overridesOf_edited, editOverrides_unset hkey, if_pos hemb]
    simp
  lasting := by
    intro rewritten hsame kv hkv hset value isOverride
    rw [mem_tagsEffective, overridesOf_congr hsame, overridesOf_edited, editOverrides_set hdict hkv hset]
    simp only [Option.some.injEq, eq_comm]

/-- What a call of `update_tags` leaves: the edit committed with its meaning, or nothing of it. -/
structure Updated (fileId : ℕ) (setKv : List (PyStr × PyStr)) (unsetKeys : List PyStr) (w : World)
    (run : Except PyErr Unit × World) : Prop where
  returned : ∀ u, run.1 = .ok u → run.2.conn.committed = run.2.conn.working ∧
    TagsEdited fileId setKv unsetKeys w.conn.working run.2.conn.committed
  raised : ∀ e, run.1 = .error e → run.2.conn.committed = w.conn.committed ∧
    (run.2.conn.working = w.conn.working ∨ run.2.conn.working = w.conn.committed)

/-- **The effective tags after an edit**, in every catalog and under any script of failing statements. -/
theorem tags_after_update (env : Env) (w : World) (fileId : ℕ) {setKv : List (PyStr × PyStr)} (unsetKeys : List PyStr)
    (hdict : (setKv.map Prod.fst).Nodup) :
    Updated fileId setKv unsetKeys w (updateTags env fileId setKv unsetKeys w) := by
  rcases hrun : updateTags env fileId setKv unsetKeys w with ⟨out, w'⟩
  cases out with
  | error e => exact ⟨nofun, fun _ _ => updateTags_of_error hrun⟩
  | ok u =>
      refine ⟨fun _ _ => ?_, nofun⟩
      obtain ⟨hview, hcommitted⟩ := updateTags_of_ok hrun
      refine ⟨hcommitted, ?_⟩
      rw [hcommitted, hview]
      exact tagsEdited_edited hdict unsetKeys fileId _ _

/-- An edit that sets a key it unsets, and unsets it twice. -/
theorem weather_edit_returns :
    (updateTags oneTopicEnv 1 [(py "note", py "dusty lidar"), (py "weather", py "fog")] [py "weather", py "weather"]
      afterOneCatalog).1.isOk = true := by
  decide +kernel

theorem tags_after_update_overlapping :
    (updateTags oneTopicEnv 1 [(py "note", py "dusty lidar"), (py "weather", py "fog")] [py "weather", py "weather"]
        afterOneCatalog).1.isOk = true ∧
      Updated 1 [(py "note", py "dusty lidar"), (py "weather", py "fog")] [py "weather", py "weather"] afterOneCatalog
        (updateTags oneTopicEnv 1 [(py "note", py "dusty lidar"), (py "weather", py "fog")] [py "weather", py "weather"]
          afterOneCatalog) :=
  ⟨weather_edit_returns, tags_after_update oneTopicEnv afterOneCatalog 1 [py "weather", py "weather"] (by decide)⟩

end McapCatalog.Runs
