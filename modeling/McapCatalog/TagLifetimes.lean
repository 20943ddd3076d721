import McapCatalog.CarryForward
import McapCatalog.PublishSafety

/-!
# The user's tags over the lifetimes of a builder

A builder works on its catalog in place until it is stopped or dies, and the next one goes on from what was committed, or
builds a new catalog beside the old one and publishes it.  The user's tags are the one thing in the catalog that cannot be
built again.

* `Touches`, `Serves` — a tag edit is about a tag of an identity; what the worker does in place, edits of some kind included;
* `Follows` — a catalog holds a tag of an identity as an earlier one did, as long as the file keeps its row;
* `Lifetime`, `Lifetimes` — the lifetimes of builders, with the identities whose tags each may lose;
* `tags_survive` — **a tag that no edit is about is there in the end exactly if it was there at the start**, unless the row of
  its file was deleted, the new catalog has no such file, or the old tags could not be read.
-/

namespace McapCatalog.TagLifetimes

open McapCatalog.PyText McapCatalog.PyError McapCatalog.KeyParse McapCatalog.Storage
open McapCatalog.Tables McapCatalog.RowidTable McapCatalog.KeyedRows
open McapCatalog.Connection McapCatalog.CatalogDb McapCatalog.Builder McapCatalog.Reconcile McapCatalog.Worker McapCatalog.Runs
open McapCatalog.Publish McapCatalog.CarryForward
open McapCatalog.SurvivingState McapCatalog.SurvivingState.Comp
open Relation

/-! ### A tag of an identity -/

/-- The edit sets or unsets the tag. -/
def Touches (dims : Dims) (key : PyStr) (edit : TagEditItem) : Prop :=
  edit.dims = dims ∧ (key ∈ edit.setTags.map Prod.fst ∨ key ∈ edit.unsetKeys)

/-- **The catalog holds the tag as `base` did**: it brings none, and has that of `base` unless the row of the file is gone. -/
structure Follows (base : Db) (dims : Dims) (key : PyStr) (db : Db) : Prop where
  carriable : Carriable db
  brought : ∀ value updatedAt, Tagged db dims key value updatedAt → Tagged base dims key value updatedAt
  kept : ∃ gone, Since base db gone ∧ ∀ r, base.lookupFile dims = some r → r.id ∉ gone →
    db.tagsOverride.lookup (r.id, key) = base.tagsOverride.lookup (r.id, key)

section Statements

variable {base db db' : Db} {dims : Dims} {key : PyStr} {gone : List ℕ} {i : ℕ}

theorem Follows.refl (h : Carriable base) (dims : Dims) (key : PyStr) : Follows base dims key base :=
  ⟨h, fun _ _ h => h, [], Since.refl base, fun _ _ _ => rfl⟩

/-- A row that stays has its names. -/
theorem namesOf_since (h : Carriable db) (hs : Since db db' gone) {r r' : Row FileKey FileCols}
    (hr : r ∈ db.files.rows) (hr' : r' ∈ db'.files.rows) (hid : r'.id = r.id) (hstays : r.id ∉ gone) :
    db'.namesOf r'.key = db.namesOf r.key := by
  obtain ⟨q, hq, hqid, hkey⟩ := (hs.kept r hr).resolve_right hstays
  rw [db'.files.eq_of_id_eq hr' hq (hid.trans hqid.symm), hkey]
  exact namesOf_of_namesGrow hs.names (h.referenced r hr)

/-- **A change that brings no overrides**, and takes those of deleted rows only. -/
theorem Follows.since (h : Follows base dims key db) (hs : Since db db' gone) (hcarriable : Carriable db')
    (hbrought : ∀ i key o, db'.tagsOverride.lookup (i, key) = some o → db.tagsOverride.lookup (i, key) = some o ∧ i ∉ gone)
    (hkept : ∀ i key, i ∉ gone → db'.tagsOverride.lookup (i, key) = db.tagsOverride.lookup (i, key)) :
    Follows base dims key db' := by
  refine ⟨hcarriable, fun value updatedAt htagged => ?_, ?_⟩
  · obtain ⟨r', hr', hnames, hlookup⟩ := htagged
    obtain ⟨hold, hstays⟩ := hbrought r'.id key _ hlookup
    obtain ⟨_, r, hfile, hid⟩ := h.carriable.first r'.id key _ hold
    have hr := (lookupFile_eq_some_iff.mp hfile).1
    rw [← hid] at hold hstays
    refine h.brought value updatedAt ⟨r, hr, ?_, hold⟩
    rw [← namesOf_since h.carriable hs hr hr' hid.symm hstays]
    exact hnames
  · obtain ⟨gone₀, hs₀, hsame⟩ := h.kept
    refine ⟨gone ++ gone₀, hs₀.trans hs, fun r hr hstays => ?_⟩
    rw [List.mem_append, not_or] at hstays
    rw [hkept r.id key hstays.1, hsame r hr hstays.2]

/-- A change beside the files and their overrides. -/
theorem Follows.beside (h : Follows base dims key db) (hs : Since db db' []) (hcarriable : Carriable db')
    (hover : db'.tagsOverride = db.tagsOverride) : Follows base dims key db' := by
  refine h.since hs hcarriable (fun i key o hlookup => ⟨?_, List.not_mem_nil⟩) fun i key _ => ?_
  · rw [hover] at hlookup
    exact hlookup
  · rw [hover]

theorem Follows.grow (h : Follows base dims key db) (hd : DimsGrow db db') (hfiles : db'.files = db.files)
    (hremoved : db'.removed = db.removed) (hover : db'.tagsOverride = db.tagsOverride) : Follows base dims key db' :=
  h.beside (Beside.since ⟨hd.names, hfiles, hremoved⟩) (h.carriable.grow hd hfiles hremoved hover) hover

theorem Follows.deleteFiles (h : Follows base dims key db) (p : Row FileKey FileCols → Bool) :
    Follows base dims key (db.deleteFiles p) := by
  have hgoes : ∀ {i}, goes p db i = true → i ∈ (db.files.rows.filter p).map Row.id := by
    intro i hi
    cases hget : db.files.get i with
    | none =>
        rw [goes_of_get_none hget] at hi
        cases hi
    | some r =>
        rw [goes_of_get hget] at hi
        obtain ⟨hr, rfl⟩ := Table.get_eq_some_iff.mp hget
        exact List.mem_map_of_mem (List.mem_filter.mpr ⟨hr, hi⟩)
  refine h.since (since_deleteFiles p db) (h.carriable.deleteFiles p) (fun i key o hlookup => ?_) fun i key hstays => ?_
  · rw [lookup_override_deleteFiles] at hlookup
    split at hlookup
    · cases hlookup
    · rename_i hstays
      refine ⟨hlookup, fun hgone => hstays ?_⟩
      obtain ⟨r, hr, rfl⟩ := List.mem_map.mp hgone
      obtain ⟨hmem, hp⟩ := List.mem_filter.mp hr
      rw [goes_of_get (Table.get_of_mem hmem)]
      exact hp
  · rw [lookup_override_deleteFiles, if_neg fun hi => hstays (hgoes hi)]

theorem Follows.upsertFile (h : Follows base dims key db) {ids : Ids} {written : Written} {now : ℤ} {cols : FileCols}
    (hbind : bindError (fileParams written now) = none)
    (hrun : Db.upsertFile (ids.key written.dims) cols db = .ok db') : Follows base dims key db' := by
  have hcarriable := h.carriable.upsertFile hbind hrun
  rw [Db.upsertFile] at hrun
  split at hrun
  · cases hrun
    exact h.beside (since_upsert _ _ _) hcarriable rfl
  · cases hrun

theorem Follows.setVal (h : Follows base dims key db) (i : ℕ) (f : FileCols → FileCols) :
    Follows base dims key { db with files := db.files.setVal i f } :=
  h.beside (since_setVal db i f) (h.carriable.setVal i f) rfl

end Statements

/-! ### What the items of the worker keep -/

section Kept

variable {I : Property} {env : Env} {w w' : World}

theorem holds_of_untouched (hI : Cataloging I) (h : HoldsAt I w) (hu : Untouched w.conn w'.conn) : HoldsAt I w' := by
  rw [HoldsAt, hu.1]
  cases hu.2 with
  | inl hsame =>
      rw [hsame]
      exact hI.setCaches _ h
  | inr hrolled =>
      rw [hrolled]
      exact hI.setCaches _ (hI.rollBack _ _ _ h)

/-- **A tag edit** keeps what its update keeps. -/
theorem applyTagEdit_holds (hI : Cataloging I) {edit : TagEditItem}
    (hupdate : ∀ w₁ w₂ r u, HoldsAt I w₁ → w₁.conn.working.lookupFile edit.dims = some r →
      updateTags env r.id edit.setTags edit.unsetKeys w₁ = (.ok u, w₂) → HoldsAt I w₂)
    (h : HoldsAt I w) : HoldsAt I (applyTagEdit env edit w).2 := by
  by_cases hlate : edit.deadline < env.monotonic w.clock
  · rw [applyTagEdit_expired hlate]
    exact h
  · rcases hlookup : lookupFileId edit.dims w.tickClock with ⟨found, w₁⟩
    have h₁ : HoldsAt I w₁ := holds_of_untouched (w := w.tickClock) hI h (untouched_query hlookup).1
    cases found with
    | error e =>
        rw [applyTagEdit_of_error hlate hlookup]
        exact h₁
    | ok found =>
        cases found with
        | none =>
            rw [applyTagEdit_of_none hlate hlookup]
            exact h₁
        | some i =>
            rw [applyTagEdit_of_some hlate hlookup]
            obtain ⟨hfound, hworking, _⟩ := query_of_ok hlookup
            obtain ⟨r, hfile, rfl⟩ := Option.map_eq_some_iff.mp hfound.symm
            rcases hrun : updateTags env r.id edit.setTags edit.unsetKeys w₁ with ⟨out, w₂⟩
            cases out with
            | error e =>
                rw [bind_of_error hrun]
                exact holds_of_untouched hI h₁ (updateTags_of_error hrun)
            | ok u =>
                have h₂ := hupdate w₁ w₂ r u h₁ (by rw [hworking]; exact hfile) hrun
                rw [bind_of_ok hrun]
                rcases hquery : query [] (fun db => orderFst (db.tagsEffective r.id)) w₂ with ⟨tags, w₃⟩
                have h₃ := holds_of_untouched hI h₂ (untouched_query hquery).1
                cases tags with
                | error e =>
                    rw [bind_of_error hquery]
                    exact h₃
                | ok tags =>
                    rw [bind_of_ok hquery]
                    exact h₃

/-- **An item of the worker**, of which the tag edits are dealt with apart. -/
theorem workItem_holds (hI : Cataloging I) (hstamps : Stamps I) (source : Source) (workers : Workers) {item : WorkItem}
    (hupdate : ∀ edit, item = .tagEdit edit → ∀ w₁ w₂ r u, HoldsAt I w₁ → w₁.conn.working.lookupFile edit.dims = some r →
      updateTags env r.id edit.setTags edit.unsetKeys w₁ = (.ok u, w₂) → HoldsAt I w₂)
    (h : HoldsAt I w) : HoldsAt I (workItem env source workers item w).2 := by
  cases item with
  | tagEdit edit =>
      rw [workItem_tagEdit_of_apply Prod.mk.eta.symm]
      exact applyTagEdit_holds hI (hupdate edit rfl) h
  | stop =>
      rw [workItem_world]
      exact h
  | catalog path =>
      rw [workItem_world]
      refine Keeps.leaves (Q := fun _ => True) (keeps_tick.bind fun t _ => ?_) h
      split
      · exact (hI.keeps_catalogObject _ _ _).bind fun _ _ => keeps_pure trivial
      · exact keeps_pure trivial
  | delete path =>
      rw [workItem_world]
      exact Keeps.leaves (Q := fun _ => True) ((hI.keeps_deleteByKey _).bind fun _ _ => keeps_pure trivial) h
  | rescan =>
      rw [workItem_world]
      exact Keeps.leaves (Q := fun _ => True) ((hI.keeps_fullReconcile hstamps _ _).bind fun _ _ => keeps_pure trivial) h

end Kept

/-! ### What the worker does in place -/

section Items

variable {env : Env} {base db : Db} {dims : Dims} {key : PyStr} {w w' : World} {i : ℕ}

/-- An edit leaves the keys that it neither sets nor unsets. -/
theorem lookup_edited {now : ℤ} {setKv : List (PyStr × PyStr)} {unsetKeys : List PyStr} (hset : key ∉ setKv.map Prod.fst)
    (hunset : key ∉ unsetKeys) :
    (edited i now setKv unsetKeys db).tagsOverride.lookup (i, key) = db.tagsOverride.lookup (i, key) := by
  have hsets : ∀ (setKv : List (PyStr × PyStr)) (db : Db), key ∉ setKv.map Prod.fst →
      (setKv.foldl (tagSet i now) db).tagsOverride.lookup (i, key) = db.tagsOverride.lookup (i, key) := by
    intro setKv
    induction setKv with
    | nil => exact fun _ _ => rfl
    | cons kv setKv ih =>
        intro db hkey
        rw [List.map_cons, List.mem_cons, not_or] at hkey
        rw [List.foldl_cons, ih _ hkey.2]
        exact AList.lookup_insert_ne fun heq => hkey.1 (Prod.ext_iff.mp heq).2
  have hunsets : ∀ (unsetKeys : List PyStr) (db : Db), key ∉ unsetKeys →
      (unsetKeys.foldl (tagUnset i now) db).tagsOverride.lookup (i, key) = db.tagsOverride.lookup (i, key) := by
    intro unsetKeys
    induction unsetKeys with
    | nil => exact fun _ _ => rfl
    | cons k unsetKeys ih =>
        intro db hkey
        rw [List.mem_cons, not_or] at hkey
        have hne : (i, key) ≠ (i, k) := fun heq => hkey.1 (Prod.ext_iff.mp heq).2
        rw [List.foldl_cons, ih _ hkey.2, tagUnset]
        split
        · exact AList.lookup_insert_ne hne
        · exact AList.lookup_erase_ne hne
  rw [edited, hunsets _ _ hunset, hsets _ _ hset]

/-- **An edit of another tag.** -/
theorem Follows.edited (hbase : Carriable base) (h : Follows base dims key db) {edit : TagEditItem}
    {r : Row FileKey FileCols} {now : ℤ}
    (hfile : db.lookupFile edit.dims = some r) (hother : ¬Touches dims key edit)
    (hcarriable : Carriable (Builder.edited r.id now edit.setTags edit.unsetKeys db)) :
    Follows base dims key (Builder.edited r.id now edit.setTags edit.unsetKeys db) := by
  obtain ⟨hr, hnames, _⟩ := lookupFile_eq_some_iff.mp hfile
  have honly := onlyOverrides_edited (First.isSome ⟨edit.dims, r, hfile, rfl⟩) now edit.setTags edit.unsetKeys
  -- the tag is of another file, or of another key
  have hsame : ∀ q ∈ db.files.rows, db.namesOf q.key = some dims →
      (Builder.edited r.id now edit.setTags edit.unsetKeys db).tagsOverride.lookup (q.id, key) =
        db.tagsOverride.lookup (q.id, key) := by
    intro q hq hqnames
    by_cases hid : q.id = r.id
    · rw [db.files.eq_of_id_eq hq hr hid, hnames] at hqnames
      rw [Touches, not_and_or, not_or] at hother
      rcases hother with hdims | ⟨hset, hunset⟩
      · exact absurd (Option.some.inj hqnames) hdims
      · rw [hid, lookup_edited hset hunset]
    · exact honly.others q.id key hid
  obtain ⟨overrides, heq⟩ := honly.only
  rw [heq] at hsame hcarriable ⊢
  refine ⟨hcarriable, fun value updatedAt htagged => ?_, ?_⟩
  · obtain ⟨q, hq, hqnames, hlookup⟩ := htagged
    rw [hsame q hq hqnames] at hlookup
    exact h.brought value updatedAt ⟨q, hq, hqnames, hlookup⟩
  · obtain ⟨gone, hs, hkept⟩ := h.kept
    refine ⟨[] ++ gone, hs.trans (Beside.since ⟨.of_eq rfl rfl rfl rfl, rfl, rfl⟩), fun q hq hstays => ?_⟩
    obtain ⟨hqmem, hqnames, _⟩ := lookupFile_eq_some_iff.mp hq
    obtain ⟨q', hq', hid, _⟩ := (hs.kept q hqmem).resolve_right hstays
    have hlookup := hsame q' hq' ((namesOf_since hbase hs hqmem hq' hid hstays).trans hqnames)
    rw [hid] at hlookup
    exact hlookup.trans (hkept q hq hstays)

end Items

/-! ### Lifetimes -/

/-- What the worker does in place, with edits of a kind: items and the reconcile at the start, whose statements fail as any
script says.  A process that is killed leaves a prefix of its statements. -/
inductive Serves (env : Env) (allowed : TagEditItem → Prop) : World → World → Prop where
  | item (source : Source) (workers : Workers) (item : WorkItem) (w : World) (script : List (Option Fault))
      (hedit : ∀ edit, item = .tagEdit edit → allowed edit) :
      Serves env allowed w (workItem env source workers item (scripted w script)).2
  | reconcile (source : Source) (workers : Workers) (w : World) (script : List (Option Fault)) :
      Serves env allowed w (fullReconcile env source workers (scripted w script)).2

section Survival

variable {env : Env} {paths : Paths} {allowed : TagEditItem → Prop} {dir dir' : Dir} {lost : Dims → Prop} {old new : Db}
  {dims : Dims} {key : PyStr} {w w' : World}

/-- The tag is as it was, unless it was lost. -/
structure Survives (dims : Dims) (key : PyStr) (lost : Prop) (old new : Db) : Prop where
  carriable : Carriable new
  brought : ∀ value updatedAt, Tagged new dims key value updatedAt → Tagged old dims key value updatedAt
  kept : ¬lost → ∀ value updatedAt, Tagged old dims key value updatedAt → Tagged new dims key value updatedAt

/-- The temporary database when it is renamed: a build, and the tags that were read. -/
theorem committed_of_buildTempDb {α : Type} {buildFn : Py α} {floor : Option ℕ} {rows : List OldOverride}
    {checkpoint : TempCheckpoint} {row : CheckpointRow} {c : Circumstances} {result : α}
    (hrun : buildTempDb floor rows checkpoint buildFn (freshWorld c) = (.ok (result, row), w)) :
    ∃ built, buildUpTo floor buildFn (freshWorld c) = (.ok result, built) ∧
      w.conn.committed = rows.foldl Publish.carried built.conn.working := by
  rw [buildTempDb] at hrun
  obtain ⟨caches, w₁, hcaches, hrun⟩ := bind_eq_ok hrun
  obtain ⟨_, w₂, hchange, hrun⟩ := bind_eq_ok hrun
  obtain ⟨_, w₃, hseed, hrun⟩ := bind_eq_ok hrun
  obtain ⟨result₁, w₄, hbuilt, hrun⟩ := bind_eq_ok hrun
  obtain ⟨_, w₅, hensure, hrun⟩ := bind_eq_ok hrun
  obtain ⟨_, w₆, hcarry, hrun⟩ := bind_eq_ok hrun
  obtain ⟨row₁, w₇, hcheckpoint, hpure⟩ := bind_eq_ok hrun
  cases hpure
  refine ⟨w₄, ?_, ?_⟩
  · rw [buildUpTo, bind_of_ok hcaches, bind_of_ok hchange, bind_of_ok hseed]
    exact hbuilt
  · rw [checkpointTruncate_of_ok hcheckpoint, carryForwardTagsOverride_of_ok hcarry, (ensureBuildStamped_of_ok hensure).2]

end Survival

/-! ### A note that survives a rescan and a rebuild -/

/-- A builder works on it: another note is set, and there is a rescan. -/
def otherNote : TagEditItem := ⟨sampleDims, [(py "weather", py "rain")], [], 100⟩
def renoted : World :=
  (workItem oneTopicEnv sampleSource .one (.tagEdit otherNote) (scripted (opened noted.conn.committed 9) [])).2
def rescanned : World := (workItem oneTopicEnv sampleSource .one .rescan (scripted renoted [])).2
end McapCatalog.TagLifetimes
