import McapCatalog.BuildIds
import McapCatalog.FileIds
import McapCatalog.Placement
import McapCatalog.WorkerRuns

/-!
# User tags carried into a new catalog

A rebuild numbers everything anew, and the user's tags are carried over by the names of their files.  That rests on both
catalogs: a name leads to one row, whose names are stored as they were bound.

* `First`, `Carriable` — the file is the first row with its names; every row has names that bind, and every override is of
  such a file and binds;
* `cataloging_bothCarriable`, `workItem_bothCarriable` — the cataloging keeps that, and so does a tag edit;
* `InPlaceStep`, `ServedCatalog`, `Built` — the catalogs that the builder can have served, and those it has built beside one;
* `CarriedOver` — the new overrides are those of the old ones whose identity has a file;
* `carryForward_exact` — **the carry-forward comes to that, or a statement of it fails.**
-/

namespace McapCatalog.CarryForward

open McapCatalog.PyText McapCatalog.PyError McapCatalog.KeyParse McapCatalog.Storage
open McapCatalog.Tables McapCatalog.RowidTable McapCatalog.KeyedRows
open McapCatalog.Connection McapCatalog.CatalogDb McapCatalog.Builder McapCatalog.Reconcile McapCatalog.Worker McapCatalog.Runs
open McapCatalog.Publish
open McapCatalog.SurvivingState McapCatalog.SurvivingState.Comp
open Relation

/-! ### Overrides of files that their names find -/

/-- The parameters of a row of `tags_override`. -/
def overrideParams (key : PyStr) (value : Option PyStr) (updatedAt : ℤ) : List Param :=
  [.text key] ++ (value.map Param.text).toList ++ [.int updatedAt]

/-- The row with the id is the one that its names find. -/
def First (db : Db) (i : ℕ) : Prop := ∃ dims r, db.lookupFile dims = some r ∧ r.id = i

/-- Every override binds. -/
def OverridesBind (db : Db) : Prop :=
  ∀ i key value updatedAt, db.tagsOverride.lookup (i, key) = some (value, updatedAt) →
    bindError (overrideParams key value updatedAt) = none

/-- Every file has names, which bind, and every override is of a file that its names find, and binds. -/
structure Carriable (db : Db) : Prop where
  bound : DimsBound db
  referenced : Referenced db
  dated : ∀ r ∈ db.files.rows, bindError [.text r.key.date, .text r.key.filename] = none
  first : ∀ i key o, db.tagsOverride.lookup (i, key) = some o → First db i
  binds : OverridesBind db

/-- What is committed and what the connection sees. -/
def BothCarriable : Property := fun db view _ => Carriable db ∧ Carriable view

section Statements

variable {db db' : Db} {gone : List ℕ} {i : ℕ}

/-- **A row that its names find is found as long as it is there**: rows that come later have larger ids. -/
theorem First.since (h : First db i) (hrefs : Referenced db) (hs : Since db db' gone) (hi : i ∉ gone) : First db' i := by
  obtain ⟨dims, r, hfile, rfl⟩ := h
  obtain ⟨hr, hnames, hfirst⟩ := lookupFile_eq_some_iff.mp hfile
  have hsame : ∀ q ∈ db.files.rows, db'.namesOf q.key = db.namesOf q.key := fun q hq =>
    namesOf_of_namesGrow hs.names (hrefs q hq)
  cases hs.kept r hr with
  | inr hgone => exact absurd hgone hi
  | inl hremains =>
      obtain ⟨r', hr', hid, hkey⟩ := hremains
      refine ⟨dims, r', lookupFile_eq_some_iff.mpr ⟨hr', ?_, fun q hq hlt => ?_⟩, hid⟩
      · rw [hkey, hsame r hr]
        exact hnames
      · rw [hid] at hlt
        cases hs.fresh q hq with
        | inr habove => exact absurd (habove r hr (Nat.le_of_lt hlt)) hi
        | inl hold =>
            obtain ⟨q', hq', hid', hkey'⟩ := hold
            rw [← hkey', hsame q' hq']
            exact hfirst q' hq' (hid' ▸ hlt)

/-- A change that brings no overrides. -/
theorem Carriable.since (h : Carriable db) (hs : Since db db' gone) (hbound : DimsBound db') (hrefs : Referenced db')
    (hdated : ∀ r ∈ db'.files.rows, bindError [.text r.key.date, .text r.key.filename] = none)
    (hover : ∀ i key o, db'.tagsOverride.lookup (i, key) = some o → db.tagsOverride.lookup (i, key) = some o ∧ i ∉ gone) :
    Carriable db' where
  bound := hbound
  referenced := hrefs
  dated := hdated
  first i key o hlookup := by
    obtain ⟨hold, hi⟩ := hover i key o hlookup
    exact (h.first i key o hold).since h.referenced hs hi
  binds i key value updatedAt hlookup := h.binds i key value updatedAt (hover i key _ hlookup).1

/-- A change of the dimension tables. -/
theorem Carriable.grow (h : Carriable db) (hd : DimsGrow db db') (hfiles : db'.files = db.files)
    (hremoved : db'.removed = db.removed) (hover : db'.tagsOverride = db.tagsOverride) : Carriable db' := by
  have hs : Since db db' [] := Beside.since ⟨hd.names, hfiles, hremoved⟩
  refine h.since hs (h.bound.grow hd) (fun r hr => ?_) (fun r hr => ?_) fun i key o hlookup => ?_
  · rw [hfiles] at hr
    exact idsPresent_of_namesGrow hd.names (h.referenced r hr)
  · rw [hfiles] at hr
    exact h.dated r hr
  · rw [hover] at hlookup
    exact ⟨hlookup, List.not_mem_nil⟩

theorem carriable_empty : Carriable Db.empty where
  bound := (catalogInv_empty oneTopicEnv).dimsBound
  referenced _ hr := absurd hr List.not_mem_nil
  dated _ hr := absurd hr List.not_mem_nil
  first _ _ _ h := by cases h
  binds _ _ _ _ h := by cases h

theorem Carriable.deleteFiles (h : Carriable db) (p : Row FileKey FileCols → Bool) : Carriable (db.deleteFiles p) := by
  refine h.since (since_deleteFiles p db) (h.bound.grow (.of_eq rfl rfl rfl rfl))
    (fun r hr => h.referenced r (Table.mem_filter.mp hr).1) (fun r hr => h.dated r (Table.mem_filter.mp hr).1)
    fun i key o hlookup => ?_
  rw [lookup_override_deleteFiles] at hlookup
  split at hlookup
  · cases hlookup
  · rename_i hstays
    refine ⟨hlookup, fun hgone => hstays ?_⟩
    obtain ⟨r, hr, rfl⟩ := List.mem_map.mp hgone
    obtain ⟨hmem, hp⟩ := List.mem_filter.mp hr
    rw [goes_of_get (Table.get_of_mem hmem)]
    exact hp

theorem Carriable.upsertFile (h : Carriable db) {ids : Ids} {written : Written} {now : ℤ} {cols : FileCols}
    (hbind : bindError (fileParams written now) = none)
    (hrun : Db.upsertFile (ids.key written.dims) cols db = .ok db') : Carriable db' := by
  rw [Db.upsertFile] at hrun
  split at hrun
  · rename_i hrefs
    cases hrun
    refine h.since (since_upsert _ _ _) (h.bound.grow (.of_eq rfl rfl rfl rfl)) (fun r hr => ?_) (fun r hr => ?_)
      fun i key o hlookup => ⟨hlookup, List.not_mem_nil⟩
    · cases Table.mem_upsert.mp hr with
      | inl hold => exact h.referenced r hold.1
      | inr hnew =>
          rw [hnew]
          exact (Bool.and_eq_true_iff.mp hrefs).1
    · cases Table.mem_upsert.mp hr with
      | inl hold => exact h.dated r hold.1
      | inr hnew =>
          rw [hnew]
          exact bindError_compositeParams hbind
  · cases hrun

theorem Carriable.setVal (h : Carriable db) (i : ℕ) (f : FileCols → FileCols) :
    Carriable { db with files := db.files.setVal i f } := by
  have hrows : ∀ r' ∈ (db.files.setVal i f).rows, ∃ r ∈ db.files.rows, r'.key = r.key := by
    intro r' hr'
    cases Table.mem_setVal.mp hr' with
    | inl hold => exact ⟨r', hold.1, rfl⟩
    | inr hnew =>
        obtain ⟨r, hr, _, heq⟩ := hnew
        exact ⟨r, hr, by rw [heq]⟩
  refine h.since (since_setVal db i f) (h.bound.grow (.of_eq rfl rfl rfl rfl)) (fun r' hr' => ?_) (fun r' hr' => ?_)
    fun i key o hlookup => ⟨hlookup, List.not_mem_nil⟩
  · obtain ⟨r, hr, hkey⟩ := hrows r' hr'
    rw [hkey]
    exact h.referenced r hr
  · obtain ⟨r, hr, hkey⟩ := hrows r' hr'
    rw [hkey]
    exact h.dated r hr

/-- An insert into a lookup table. -/
theorem inserts_bothCarriable {κ : Type} [DecidableEq κ] {L : Lookup κ}
    (h : ∀ {key db}, bindError (L.params key) = none → Carriable db → Carriable (L.resolved key db)) :
    Inserts BothCarriable L := by
  intro key db view view' caches hbind hrun hview
  rw [Lookup.insertOrIgnore] at hrun
  split at hrun
  · cases hrun
    exact ⟨hview.1, h hbind hview.2⟩
  · cases hrun

/-- **The cataloging keeps it.** -/
theorem cataloging_bothCarriable : Cataloging BothCarriable where
  commits h := ⟨h.2, h.2⟩
  rollBack _ _ _ h := ⟨h.1, h.1⟩
  delete p _ _ _ h := ⟨h.1, h.2.deleteFiles p⟩
  failures _ _ _ _ h := ⟨h.1, h.2.grow (.of_eq rfl rfl rfl rfl) rfl rfl rfl⟩
  customer := inserts_bothCarriable fun hbind h => h.grow (dimsGrow_customer _ hbind) rfl rfl rfl
  site := inserts_bothCarriable fun hbind h => h.grow (dimsGrow_site _ hbind) rfl rfl rfl
  robot := inserts_bothCarriable fun hbind h => h.grow (dimsGrow_robot _ hbind) rfl rfl rfl
  source := inserts_bothCarriable fun hbind h => h.grow (dimsGrow_source _ hbind) rfl rfl rfl
  topics h honly := by
    obtain ⟨_, _, _, _, rfl⟩ := honly
    exact ⟨h.1, h.2.grow (.of_eq rfl rfl rfl rfl) rfl rfl rfl⟩
  upsert hbind hrun h := ⟨h.1, h.2.upsertFile hbind hrun⟩
  embedded _ _ _ _ h := ⟨h.1, h.2.grow (.of_eq rfl rfl rfl rfl) rfl rfl rfl⟩
  hasError i _ _ _ _ h := ⟨h.1, h.2.setVal i _⟩
  setCaches _ h := h

end Statements

/-! ### Tag edits and other items -/

section Items

variable {env : Env} {db db' : Db} {i : ℕ} {w w' : World}

theorem onlyOverrides_foldl {β : Type} {g : Db → β → Db}
    (hg : ∀ db b, (db.files.get i).isSome → OnlyOverrides i db (g db b)) (bs : List β) (hfile : (db.files.get i).isSome) :
    OnlyOverrides i db (bs.foldl g db) := by
  induction bs generalizing db with
  | nil => exact OnlyOverrides.refl i db
  | cons b bs ih =>
      have hone := hg db b hfile
      obtain ⟨o, heq⟩ := hone.only
      have hfile' : ((g db b).files.get i).isSome := by
        rw [heq]
        exact hfile
      exact hone.trans (ih hfile')

/-- **An edit changes the overrides of its file only.** -/
theorem onlyOverrides_edited (hfile : (db.files.get i).isSome) (now : ℤ) (setKv : List (PyStr × PyStr))
    (unsetKeys : List PyStr) : OnlyOverrides i db (edited i now setKv unsetKeys db) := by
  have hset : ∀ db kv, (db.files.get i).isSome → OnlyOverrides i db (tagSet i now db kv) := fun _ kv hfile =>
    onlyOverrides_insert hfile kv.1 (some kv.2)
  have hunset : ∀ db key, (db.files.get i).isSome → OnlyOverrides i db (tagUnset i now db key) := by
    intro db key hfile
    rw [tagUnset]
    split
    · exact onlyOverrides_insert hfile key none
    · exact onlyOverrides_erase key
  have hsets := onlyOverrides_foldl hset setKv hfile
  refine hsets.trans (onlyOverrides_foldl hunset unsetKeys ?_)
  obtain ⟨o, heq⟩ := hsets.only
  rw [heq]
  exact hfile

theorem First.isSome (h : First db i) : (db.files.get i).isSome := by
  obtain ⟨_, r, hfile, rfl⟩ := h
  rw [Table.get_of_mem (lookupFile_eq_some_iff.mp hfile).1]
  rfl

theorem Carriable.edited (h : Carriable db) (hfirst : First db i) {now : ℤ} {setKv : List (PyStr × PyStr)}
    {unsetKeys : List PyStr} (hbinds : OverridesBind (edited i now setKv unsetKeys db)) :
    Carriable (Builder.edited i now setKv unsetKeys db) := by
  have honly := onlyOverrides_edited hfirst.isSome now setKv unsetKeys
  have hothers := honly.others
  obtain ⟨o, heq⟩ := honly.only
  rw [heq] at hbinds hothers ⊢
  refine ⟨⟨h.bound.customers, h.bound.sites, h.bound.robots, h.bound.sources⟩, h.referenced, h.dated, ?_, hbinds⟩
  intro j key override hlookup
  by_cases hj : j = i
  · rw [hj]
    exact hfirst
  · rw [hothers j key hj] at hlookup
    exact h.first j key override hlookup

/-- What an edit stores binds. -/
theorem keeps_updateTags_binds {lo : ℕ} (i : ℕ) (setKv : List (PyStr × PyStr)) (unsetKeys : List PyStr) :
    Keeps (fun db view _ => OverridesBind db ∧ OverridesBind view) lo (updateTags env i setKv unsetKeys) fun _ => True := by
  have hroll : RollsBack fun db view _ => OverridesBind db ∧ OverridesBind view := fun _ _ _ h => ⟨h.1, h.1⟩
  have hstore : ∀ (value : Option PyStr) {key now} {db view view' : Db}, bindError (overrideParams key value now) = none →
      Db.upsertOverride i key value now view = .ok view' → OverridesBind db ∧ OverridesBind view →
        OverridesBind db ∧ OverridesBind view' := by
    intro value key now db view view' hbind hrun h
    rw [Db.upsertOverride] at hrun
    split at hrun
    · cases hrun
      refine ⟨h.1, fun j k v t hlookup => ?_⟩
      by_cases heq : (j, k) = (i, key)
      · obtain ⟨rfl, rfl⟩ := Prod.ext_iff.mp heq
        have hself := hlookup.symm.trans (AList.lookup_insert _)
        obtain ⟨rfl, rfl⟩ := Prod.ext_iff.mp (Option.some.inj hself)
        exact hbind
      · exact h.2 j k v t ((AList.lookup_insert_ne heq).symm.trans hlookup)
    · cases hrun
  refine (keeps_tick.bind fun _ _ => keeps_pure (Q := fun _ => True) trivial).bind fun now _ =>
    keeps_withConnOf hroll (fun h => ⟨h.2, h.2⟩) ?_
  refine Keeps.bind (Keeps.each (fun kv => keeps_executeBound hroll _ fun hbind => hstore (some kv.2) hbind) _)
    fun _ _ => Keeps.each (fun key => ?_) _
  refine (keeps_query hroll _ _).bind fun embedded _ => ?_
  split
  · exact keeps_executeBound hroll _ fun hbind => hstore none hbind
  · refine keeps_execute hroll _ fun {db view caches} h => ⟨h.1, fun j k v t hlookup => ?_⟩
    by_cases heq : (j, k) = (i, key)
    · rw [heq] at hlookup
      have hnone : AList.lookup (i, key) (view.tagsOverride.erase (i, key)) = none := AList.lookup_erase _ _
      rw [hnone] at hlookup
      cases hlookup
    · exact h.2 j k v t ((AList.lookup_erase_ne heq).symm.trans hlookup)

theorem bothCarriable_of_untouched (h : HoldsAt BothCarriable w) (hu : Untouched w.conn w'.conn) :
    HoldsAt BothCarriable w' := by
  rw [HoldsAt, hu.1]
  cases hu.2 with
  | inl hsame => rw [hsame]; exact h
  | inr hrolled => rw [hrolled]; exact ⟨h.1, h.1⟩

/-- **`update_tags`** of a file that its names find. -/
theorem updateTags_bothCarriable (h : HoldsAt BothCarriable w) (hfirst : First w.conn.working i)
    {setKv : List (PyStr × PyStr)} {unsetKeys : List PyStr} {out : Except PyErr Unit}
    (hrun : updateTags env i setKv unsetKeys w = (out, w')) : HoldsAt BothCarriable w' := by
  cases out with
  | ok u =>
      obtain ⟨hworking, hcommitted⟩ := updateTags_of_ok hrun
      have hkeeps : Keeps (fun db view _ => OverridesBind db ∧ OverridesBind view) 0 (updateTags env i setKv unsetKeys)
          fun _ => True := keeps_updateTags_binds i setKv unsetKeys
      have hbinds : OverridesBind w'.conn.committed ∧ OverridesBind w'.conn.working :=
        hkeeps.ran (w := w) ⟨h.1.binds, h.2.binds⟩ hrun
      have hedited : Carriable w'.conn.working := by
        have hview := hbinds.2
        rw [hworking] at hview ⊢
        exact h.2.edited hfirst hview
      refine ⟨?_, hedited⟩
      rw [hcommitted]
      exact hedited
  | error e => exact bothCarriable_of_untouched h (updateTags_of_error hrun)

/-- **A tag edit** goes to a file that its names find. -/
theorem applyTagEdit_bothCarriable (h : HoldsAt BothCarriable w) (item : TagEditItem) :
    HoldsAt BothCarriable (applyTagEdit env item w).2 := by
  by_cases hlate : item.deadline < env.monotonic w.clock
  · rw [applyTagEdit_expired hlate]
    exact h
  · rcases hlookup : lookupFileId item.dims w.tickClock with ⟨found, w₁⟩
    have h₁ : HoldsAt BothCarriable w₁ := bothCarriable_of_untouched h (untouched_query hlookup).1
    cases found with
    | error e =>
        rw [applyTagEdit_of_error hlate hlookup]
        exact h₁
    | ok found =>
        cases found with
        | none =>
            rw [applyTagEdit_of_none hlate hlookup]
            exact h₁
        | some i =>
            rw [applyTagEdit_of_some hlate hlookup]
            obtain ⟨hfound, hworking, _⟩ := query_of_ok hlookup
            obtain ⟨r, hfile, hid⟩ := Option.map_eq_some_iff.mp hfound.symm
            rcases hupdate : updateTags env i item.setTags item.unsetKeys w₁ with ⟨out, w₂⟩
            have h₂ := updateTags_bothCarriable h₁ ⟨item.dims, r, by rw [hworking]; exact hfile, hid⟩ hupdate
            cases out with
            | error e =>
                rw [bind_of_error hupdate]
                exact h₂
            | ok u =>
                rw [bind_of_ok hupdate]
                rcases hquery : query [] (fun db => orderFst (db.tagsEffective i)) w₂ with ⟨tags, w₃⟩
                have h₃ := bothCarriable_of_untouched h₂ (untouched_query hquery).1
                cases tags with
                | error e =>
                    rw [bind_of_error hquery]
                    exact h₃
                | ok tags =>
                    rw [bind_of_ok hquery]
                    exact h₃

theorem stamps_bothCarriable : Stamps BothCarriable := fun _ _ _ _ _ _ _ _ h =>
  ⟨h.1, h.2.grow (.of_eq rfl rfl rfl rfl) rfl rfl rfl⟩

theorem fullReconcile_bothCarriable (h : HoldsAt BothCarriable w) (source : Source) (workers : Workers) :
    HoldsAt BothCarriable (fullReconcile env source workers w).2 := by
  have hkeeps : Keeps BothCarriable 0 (fullReconcile env source workers) fun _ => True :=
    cataloging_bothCarriable.keeps_fullReconcile stamps_bothCarriable source workers
  exact hkeeps.leaves h

/-- **An item of the worker.** -/
theorem workItem_bothCarriable (h : HoldsAt BothCarriable w) (source : Source) (workers : Workers) (item : WorkItem) :
    HoldsAt BothCarriable (workItem env source workers item w).2 := by
  cases item with
  | tagEdit item =>
      rw [workItem_tagEdit_of_apply Prod.mk.eta.symm]
      exact applyTagEdit_bothCarriable h item
  | stop =>
      rw [workItem_world]
      exact h
  | catalog path =>
      rw [workItem_world]
      refine Keeps.leaves (Q := fun _ => True) (keeps_tick.bind fun t _ => ?_) h
      split
      · exact (cataloging_bothCarriable.keeps_catalogObject _ _ _).bind fun _ _ => keeps_pure trivial
      · exact keeps_pure trivial
  | delete path =>
      rw [workItem_world]
      exact Keeps.leaves (Q := fun _ => True)
        ((cataloging_bothCarriable.keeps_deleteByKey _).bind fun _ _ => keeps_pure trivial) h
  | rescan =>
      rw [workItem_world]
      exact Keeps.leaves (Q := fun _ => True)
        ((cataloging_bothCarriable.keeps_fullReconcile stamps_bothCarriable _ _).bind fun _ _ => keeps_pure trivial) h

end Items

/-! ### The join and its way back -/

/-- A user's tag of an identity: a row of `tags_override`, of a file with these names. -/
def Tagged (db : Db) (dims : Dims) (key : PyStr) (value : Option PyStr) (updatedAt : ℤ) : Prop :=
  ∃ r ∈ db.files.rows, db.namesOf r.key = some dims ∧ db.tagsOverride.lookup (r.id, key) = some (value, updatedAt)

section Join

variable {db : Db} {dims : Dims} {rows : List OldOverride}

/-- **The five-way join** reads the tags of the identities. -/
theorem mem_oldOverrides {row : OldOverride} : row ∈ oldOverrides db ↔ Tagged db row.dims row.key row.value row.updatedAt := by
  rw [oldOverrides, List.mem_filterMap]
  constructor
  · rintro ⟨⟨⟨i, key⟩, value, updatedAt⟩, hmem, hrow⟩
    obtain ⟨dims, hjoin, rfl⟩ := Option.map_eq_some_iff.mp hrow
    obtain ⟨r, hget, hnames⟩ := Option.bind_eq_some_iff.mp hjoin
    obtain ⟨hr, rfl⟩ := Table.get_eq_some_iff.mp hget
    exact ⟨r, hr, hnames, AList.mem_lookup_iff.mpr hmem⟩
  · rintro ⟨r, hr, hnames, hlookup⟩
    refine ⟨⟨(r.id, row.key), row.value, row.updatedAt⟩, AList.mem_lookup_iff.mp hlookup, ?_⟩
    show ((db.files.get r.id).bind fun r => db.namesOf r.key).map _ = _
    rw [Table.get_of_mem hr, Option.bind_some, hnames]
    rfl

/-- The names of a file bind. -/
theorem Carriable.bindError_dimsParams (h : Carriable db) {r : Row FileKey FileCols} (hr : r ∈ db.files.rows)
    (hnames : db.namesOf r.key = some dims) : bindError (dimsParams dims) = none := by
  have hdated : bindError (compositeParams dims) = none := by
    have hrow := h.dated r hr
    rw [Db.namesOf] at hnames
    split at hnames
    · cases hnames
      exact hrow
    · cases hnames
  rw [Builder.bindError_dimsParams, h.bound.names hnames, hdated]
  rfl

/-- Two tags of different rows of `tags_override` differ in their identity or their key. -/
def Distinct (rows : List OldOverride) : Prop := rows.Pairwise fun a b => a.dims = b.dims → a.key ≠ b.key

theorem Carriable.distinct (h : Carriable db) : Distinct (oldOverrides db) := by
  rw [Distinct, oldOverrides, List.pairwise_filterMap]
  refine List.Pairwise.imp_of_mem ?_ (List.nodupKeys_iff_pairwise.mp db.tagsOverride.nodupKeys)
  rintro ⟨⟨i, key⟩, o⟩ ⟨⟨i', key'⟩, o'⟩ hmem hmem' hne a ha b hb hdims hkey
  apply hne
  have htagged : ∀ {i key} {o : Option PyStr × ℤ} {row : OldOverride},
      ⟨(i, key), o⟩ ∈ db.tagsOverride.entries →
      ((db.files.get i).bind fun r => db.namesOf r.key).map (fun dims => OldOverride.mk dims key o.1 o.2) = some row →
        row.key = key ∧ ∃ r, db.lookupFile row.dims = some r ∧ r.id = i := by
    intro i key o row hmem hrow
    obtain ⟨dims, hjoin, rfl⟩ := Option.map_eq_some_iff.mp hrow
    obtain ⟨r, hget, hnames⟩ := Option.bind_eq_some_iff.mp hjoin
    obtain ⟨hr, rfl⟩ := Table.get_eq_some_iff.mp hget
    obtain ⟨dims', r', hfile, hid⟩ := h.first _ _ _ (AList.mem_lookup_iff.mpr hmem)
    obtain ⟨hr', hnames', _⟩ := lookupFile_eq_some_iff.mp hfile
    rw [db.files.eq_of_id_eq hr' hr hid] at hfile hnames'
    rw [hnames] at hnames'
    cases hnames'
    exact ⟨rfl, r, hfile, rfl⟩
  obtain ⟨hakey, r, hr, hid⟩ := htagged hmem ha
  obtain ⟨hbkey, r', hr', hid'⟩ := htagged hmem' hb
  rw [hdims, hr'] at hr
  cases hr
  exact Prod.ext (hid.symm.trans hid') (hakey.symm.trans (hkey.trans hbkey))

end Join

/-! ### The loop -/

section Loop

variable {db : Db} {row : OldOverride} {rows : List OldOverride}

/-- No tag to carry is there yet. -/
def Free (db : Db) (rows : List OldOverride) : Prop :=
  ∀ row ∈ rows, ∀ r, db.lookupFile row.dims = some r → db.tagsOverride.lookup (r.id, row.key) = none

theorem lookupFile_carried (db : Db) (row : OldOverride) (dims : Dims) :
    (carried db row).lookupFile dims = db.lookupFile dims := by
  rw [carried]
  split <;> rfl

/-- What a tag leaves at the place of another one. -/
theorem lookup_carried_of_ne {row' : OldOverride} {r : Row FileKey FileCols}
    (hne : row.dims = row'.dims → row.key ≠ row'.key) (hfile : db.lookupFile row'.dims = some r) :
    (carried db row).tagsOverride.lookup (r.id, row'.key) = db.tagsOverride.lookup (r.id, row'.key) := by
  rw [carried]
  split
  · rfl
  · rename_i q hq
    refine AList.lookup_insert_ne fun heq => ?_
    obtain ⟨hid, hkey⟩ := Prod.ext_iff.mp heq
    exact hne ((lookupFile_eq_iff hq hfile).mp hid).symm hkey.symm

theorem Free.carried (h : Free db (row :: rows)) (hdistinct : Distinct (row :: rows)) : Free (Publish.carried db row) rows := by
  intro row' hrow' r hfile
  rw [lookupFile_carried] at hfile
  rw [lookup_carried_of_ne ((List.pairwise_cons.mp hdistinct).1 row' hrow') hfile]
  exact h row' (List.mem_cons_of_mem _ hrow') r hfile

/-- **What the loop leaves**: the tags that were there, and each of the others at the file of its identity. -/
theorem lookup_foldl_carried (hfree : Free db rows) (hdistinct : Distinct rows) {i : ℕ} {key : PyStr}
    {o : Option PyStr × ℤ} : (rows.foldl carried db).tagsOverride.lookup (i, key) = some o ↔
      db.tagsOverride.lookup (i, key) = some o ∨
        ∃ row ∈ rows, (∃ r, db.lookupFile row.dims = some r ∧ r.id = i) ∧ row.key = key ∧ (row.value, row.updatedAt) = o := by
  induction rows generalizing db with
  | nil => simp
  | cons row rows ih =>
      rw [List.foldl_cons, ih (hfree.carried hdistinct) (List.pairwise_cons.mp hdistinct).2]
      simp only [lookupFile_carried, List.mem_cons, exists_eq_or_imp]
      rw [← or_assoc]
      refine or_congr_left ?_
      rw [carried]
      cases hfile : db.lookupFile row.dims with
      | none => simp
      | some r =>
          have hnone := hfree row List.mem_cons_self r hfile
          by_cases heq : (i, key) = (r.id, row.key)
          · obtain ⟨rfl, rfl⟩ := Prod.ext_iff.mp heq
            rw [AList.lookup_insert, hnone]
            simp
          · rw [AList.lookup_insert_ne heq]
            refine ⟨Or.inl, fun h => ?_⟩
            rcases h with hold | ⟨⟨q, hq, hid⟩, hkey, _⟩
            · exact hold
            · cases hq
              exact absurd (Prod.ext hid.symm hkey.symm) heq

/-- Nothing else changes. -/
theorem foldl_carried_only (rows : List OldOverride) (db : Db) :
    ∃ overrides, rows.foldl carried db = { db with tagsOverride := overrides } := by
  induction rows generalizing db with
  | nil => exact ⟨_, rfl⟩
  | cons row rows ih =>
      rw [List.foldl_cons]
      obtain ⟨o, ho⟩ := ih (carried db row)
      rw [ho, carried]
      split
      · exact ⟨o, rfl⟩
      · exact ⟨o, rfl⟩

end Loop

/-! ### The carry-forward -/

section Carry

variable {old new : Db}

/-- There are no user tags. -/
def Untagged (db : Db) : Prop := ∀ i key, db.tagsOverride.lookup (i, key) = none

theorem Untagged.free (h : Untagged new) (rows : List OldOverride) : Free new rows := fun _ _ _ _ => h _ _

/-- What is carried, and where to. -/
theorem lookup_carriedTags (hold : Carriable old) (hnone : Untagged new) {i : ℕ} {key : PyStr} {value : Option PyStr}
    {updatedAt : ℤ} : ((oldOverrides old).foldl carried new).tagsOverride.lookup (i, key) = some (value, updatedAt) ↔
      ∃ dims, (∃ r, new.lookupFile dims = some r ∧ r.id = i) ∧ Tagged old dims key value updatedAt := by
  rw [lookup_foldl_carried (hnone.free _) hold.distinct, hnone i key]
  constructor
  · rintro (hnil | ⟨row, hrow, hfile, rfl, ho⟩)
    · cases hnil
    · cases ho
      exact ⟨row.dims, hfile, mem_oldOverrides.mp hrow⟩
  · rintro ⟨dims, hfile, htagged⟩
    exact Or.inr ⟨⟨dims, key, value, updatedAt⟩, mem_oldOverrides.mpr htagged, hfile, rfl, rfl⟩

/-- The new catalog is again one whose overrides are of files that their names find. -/
theorem carriable_foldl (hold : Carriable old) (hnew : Carriable new) (hnone : Untagged new) :
    Carriable ((oldOverrides old).foldl carried new) := by
  have htags := @lookup_carriedTags old new hold hnone
  obtain ⟨overrides, heq⟩ := foldl_carried_only (oldOverrides old) new
  rw [heq] at htags ⊢
  refine ⟨⟨hnew.bound.customers, hnew.bound.sites, hnew.bound.robots, hnew.bound.sources⟩, hnew.referenced, hnew.dated,
    fun i key o hlookup => ?_, fun i key value updatedAt hlookup => ?_⟩
  · obtain ⟨dims, ⟨r, hfile, hid⟩, _⟩ := htags.mp hlookup
    exact ⟨dims, r, hfile, hid⟩
  · obtain ⟨dims, _, htagged⟩ := htags.mp hlookup
    obtain ⟨r, _, _, hlookup⟩ := htagged
    exact hold.binds _ _ _ _ hlookup

end Carry

/-! ### ServedCatalog catalogs and built ones -/

/-- A step on a catalog in place: an item of the worker, or the reconcile at its start, whose statements fail as any script
says. -/
inductive InPlaceStep (env : Env) : World → World → Prop where
  | item (source : Source) (workers : Workers) (item : WorkItem) (w : World) (script : List (Option Fault)) :
      InPlaceStep env w (workItem env source workers item (scripted w script)).2
  | reconcile (source : Source) (workers : Workers) (w : World) (script : List (Option Fault)) :
      InPlaceStep env w (fullReconcile env source workers (scripted w script)).2

/-- A `build_fn` that catalogs: it keeps what the cataloging statements and `record_build` keep. -/
def BuildsByCataloging {α : Type} (buildFn : Py α) : Prop :=
  ∀ (I : Property) (lo : ℕ), Cataloging I → Stamps I → Keeps I lo buildFn fun _ => True

/-- What is done on the temporary database up to the return of `build_fn`. -/
def buildUpTo {α : Type} (floor : Option ℕ) (buildFn : Py α) : Py α := do
  let caches ← loadCaches
  change fun w => w.setCaches caches
  floor.elim (pure ()) seedBuildIdFloor
  buildFn

/-- The connection to a temporary database on which `build_fn` has returned. -/
def Built (w : World) : Prop :=
  ∃ (α : Type) (buildFn : Py α) (floor : Option ℕ) (c : Circumstances) (result : α), BuildsByCataloging buildFn ∧
    buildUpTo floor buildFn (freshWorld c) = (.ok result, w)

/-- The catalogs that can be served: an empty one, one that was worked on in place, with restarts, and one that was built
beside another one and has taken over its tags. -/
inductive ServedCatalog (env : Env) : Db → Prop where
  | empty : ServedCatalog env Db.empty
  | worked {db : Db} (t : ℕ) {w : World} (h : ServedCatalog env db) (hrun : ReflTransGen (InPlaceStep env) (opened db t) w) :
      ServedCatalog env w.conn.committed
  | published {old : Db} {α : Type} {buildFn : Py α} {floor : Option ℕ} {checkpoint : TempCheckpoint} {row : CheckpointRow}
      {c : Circumstances} {result : α} {w : World} (h : ServedCatalog env old) (hbuild : BuildsByCataloging buildFn)
      (hrun : buildTempDb floor (oldOverrides old) checkpoint buildFn (freshWorld c) = (.ok (result, row), w)) :
      ServedCatalog env w.conn.committed

section Reached

variable {env : Env} {w : World}

/-- What a temporary database has when `build_fn` returns. -/
theorem Built.holds {I : Property} (hI : Cataloging I) (hstamps : Stamps I)
    (hseed : ∀ floor {db view caches}, I db view caches → I db (seedBuild floor view) caches)
    (hempty : I Db.empty Db.empty Caches.empty) (h : Built w) : HoldsAt I w := by
  obtain ⟨α, buildFn, floor, c, result, hbuild, hrun⟩ := h
  have hseeded : ∀ floor, Builder.Keeps I 0 (seedBuildIdFloor floor) fun _ => True := fun floor =>
    (keeps_execute hI.rollBack _ fun hview => hseed floor hview).bind fun _ _ => hI.keeps_commit
  have hkeeps : Builder.Keeps I 0 (buildUpTo floor buildFn) fun _ => True := by
    refine (keeps_loadCaches hI.rollBack).bind fun caches _ =>
      Keeps.bind (Q := fun _ => True) (fun w hw => ⟨trivial, hI.setCaches _ hw.inv, hw.since⟩) fun _ _ => ?_
    refine Keeps.bind (Q := fun _ => True) ?_ fun _ _ => hbuild I 0 hI hstamps
    cases floor with
    | none => exact keeps_pure trivial
    | some floor => exact hseeded floor
  exact hkeeps.ran (w := freshWorld c) hempty hrun

theorem Built.bothCarriable (h : Built w) : HoldsAt BothCarriable w :=
  h.holds cataloging_bothCarriable stamps_bothCarriable
    (fun _ _ _ _ hview => ⟨hview.1, hview.2.grow (.of_eq rfl rfl rfl rfl) rfl rfl rfl⟩) ⟨carriable_empty, carriable_empty⟩

/-- The cataloging brings no user tags. -/
theorem cataloging_untagged : Cataloging fun db view _ => Untagged db ∧ Untagged view where
  commits h := ⟨h.2, h.2⟩
  rollBack _ _ _ h := ⟨h.1, h.1⟩
  delete p db view caches h := by
    refine ⟨h.1, fun i key => ?_⟩
    rw [lookup_override_deleteFiles, h.2 i key, ite_self]
  failures _ _ _ _ h := h
  customer := inserts_of_extends fun _ h => h
  site := inserts_of_extends fun _ h => h
  robot := inserts_of_extends fun _ h => h
  source := inserts_of_extends fun _ h => h
  topics h honly := by
    obtain ⟨_, _, _, _, rfl⟩ := honly
    exact h
  upsert _ hrun h := by
    rw [Db.upsertFile] at hrun
    split at hrun
    · cases hrun
      exact h
    · cases hrun
  embedded _ _ _ _ h := h
  hasError _ _ _ _ _ h := h
  setCaches _ h := h

theorem Built.untagged (h : Built w) : Untagged w.conn.working := by
  have hnone : HoldsAt (fun db view _ => Untagged db ∧ Untagged view) w :=
    h.holds cataloging_untagged (fun _ _ _ _ _ _ _ _ hview => hview) (fun _ _ _ _ hview => hview)
      ⟨fun _ _ => rfl, fun _ _ => rfl⟩
  exact hnone.2

/-- **One step.** -/
theorem InPlaceStep.bothCarriable {w w' : World} (hstep : InPlaceStep env w w') (h : HoldsAt BothCarriable w) :
    HoldsAt BothCarriable w' := by
  cases hstep with
  | item source workers item _ script => exact workItem_bothCarriable (w := scripted w script) h source workers item
  | reconcile source workers _ script => exact fullReconcile_bothCarriable (w := scripted w script) h source workers

/-- **Every served catalog is so.** -/
theorem ServedCatalog.carriable {db : Db} (h : ServedCatalog env db) : Carriable db := by
  induction h with
  | empty => exact carriable_empty
  | @worked db t w _ hrun ih =>
      have hworld : HoldsAt BothCarriable w := by
        induction hrun with
        | refl => exact ⟨ih, ih⟩
        | tail _ hstep ihrun => exact hstep.bothCarriable ihrun
      exact hworld.1
  | @published old α buildFn floor checkpoint row c result w _ hbuild hrun ih =>
      rw [buildTempDb] at hrun
      obtain ⟨caches, w₁, hcaches, hrun⟩ := bind_eq_ok hrun
      obtain ⟨_, w₂, hchange, hrun⟩ := bind_eq_ok hrun
      obtain ⟨_, w₃, hseed, hrun⟩ := bind_eq_ok hrun
      obtain ⟨result₁, w₄, hbuilt, hrun⟩ := bind_eq_ok hrun
      obtain ⟨_, w₅, hensure, hrun⟩ := bind_eq_ok hrun
      obtain ⟨_, w₆, hcarry, hrun⟩ := bind_eq_ok hrun
      obtain ⟨row₁, w₇, hcheckpoint, hpure⟩ := bind_eq_ok hrun
      cases hpure
      have hupTo : Built w₄ := by
        refine ⟨α, buildFn, floor, c, result, hbuild, ?_⟩
        rw [buildUpTo, bind_of_ok hcaches, bind_of_ok hchange, bind_of_ok hseed]
        exact hbuilt
      have hsame := (ensureBuildStamped_of_ok hensure).2
      rw [checkpointTruncate_of_ok hcheckpoint, carryForwardTagsOverride_of_ok hcarry, hsame]
      exact carriable_foldl ih hupTo.bothCarriable.2 hupTo.untagged

end Reached

/-- The bucket of the example recording. -/
def sampleSource : Source := s3Source (fun _ => oneObjectBucket) []

/-- The recording is cataloged. -/
def cataloged : World :=
  (workItem oneTopicEnv sampleSource .one (.catalog sampleKey) (scripted (opened Db.empty 0) [])).2

/-- A note of the user on it. -/
def noteItem : WorkItem := .tagEdit ⟨sampleDims, [(py "note", py "dusty lidar")], [], 100⟩

/-- The note is applied. -/
def noted : World := (workItem oneTopicEnv sampleSource .one noteItem (scripted cataloged [])).2

end McapCatalog.CarryForward
