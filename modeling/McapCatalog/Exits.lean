import McapCatalog.PathsAgree
import McapCatalog.Ownership

/-!
# How `catalog_object` ends

A call that returns has one of five exits, several commits away from each other: the dimension rows, the per-file
transaction, the quarantine after its rollback.  Each exit has a footprint of its own, and none reaches another identity.

* `Apart`, `Near` — a change of one row and one failure at most; what the statements of the call keep of it;
* `keeps_storeFile_near`, `keeps_writeFileRow_near` — the per-file transaction and its recovery, whatever fails in them;
* `storeFile_of_ok`, `writeFileRow_of_ok` — what a call that returns has stored;
* `CallExit`, `CallExit.Holds` — the exits with their footprints;
* `catalogObject_ended` — **a call that returns has exactly one exit, and one that raises changes nothing elsewhere**,
  from every state that operations reach in which `_resolve_ids` raises only before it has inserted a row.
-/

namespace McapCatalog.Builder

open McapCatalog.PyText McapCatalog.PyError McapCatalog.KeyParse McapCatalog.McapSummary McapCatalog.Varint
open McapCatalog.Storage McapCatalog.Tables McapCatalog.RowidTable McapCatalog.KeyedRows
open McapCatalog.Connection McapCatalog.CatalogDb McapCatalog.Reconcile McapCatalog.Worker McapCatalog.Runs
open McapCatalog.SurvivingState McapCatalog.SurvivingState.Comp
open Relation

/-! ### One row and one failure -/

/-- Two databases agree on every file but the one with the key, on its tags, and on every failure but one; names only
come in. -/
structure Apart (key : Option FileKey) (failKey : PyStr) (before after : Db) : Prop where
  kept : ∀ r ∈ before.files.rows, some r.key ≠ key → r ∈ after.files.rows
  brought : ∀ r ∈ after.files.rows, some r.key ≠ key → r ∈ before.files.rows
  embedded : ∀ r ∈ before.files.rows, some r.key ≠ key → ∀ k,
    after.tagsEmbedded.lookup (r.id, k) = before.tagsEmbedded.lookup (r.id, k)
  overrides : ∀ r ∈ before.files.rows, some r.key ≠ key → ∀ k,
    after.tagsOverride.lookup (r.id, k) = before.tagsOverride.lookup (r.id, k)
  failures : ∀ k ≠ failKey, after.catalogFailures.lookup k = before.catalogFailures.lookup k
  names : NamesGrow before after

section Apart

variable {key : Option FileKey} {failKey : PyStr} {base db db' : Db}

theorem Apart.refl (key : Option FileKey) (failKey : PyStr) (db : Db) : Apart key failKey db db :=
  ⟨fun _ hr _ => hr, fun _ hr _ => hr, fun _ _ _ _ => rfl, fun _ _ _ _ => rfl, fun _ _ => rfl, NamesGrow.refl db⟩

/-- A change of other tables. -/
theorem Apart.beside (h : Apart key failKey base db) (hfiles : db'.files = db.files)
    (hembedded : db'.tagsEmbedded = db.tagsEmbedded) (hoverride : db'.tagsOverride = db.tagsOverride)
    (hfailures : db'.catalogFailures = db.catalogFailures) (hnames : NamesGrow db db') : Apart key failKey base db' where
  kept r hr hne := by
    rw [hfiles]
    exact h.kept r hr hne
  brought r hr hne := by
    rw [hfiles] at hr
    exact h.brought r hr hne
  embedded r hr hne k := by
    rw [hembedded]
    exact h.embedded r hr hne k
  overrides r hr hne k := by
    rw [hoverride]
    exact h.overrides r hr hne k
  failures k hk := by
    rw [hfailures]
    exact h.failures k hk
  names := h.names.trans hnames

theorem Apart.onlyTopics (h : Apart key failKey base db) (honly : OnlyTopics db db') : Apart key failKey base db' := by
  obtain ⟨n, s, t, m, rfl⟩ := honly
  exact h.beside rfl rfl rfl rfl (.of_eq rfl rfl rfl rfl)

/-- The failure itself. -/
theorem Apart.failure (h : Apart key failKey base db) {failures : Rows PyStr (ℤ × PyStr)}
    (hothers : ∀ k ≠ failKey, failures.lookup k = db.catalogFailures.lookup k) :
    Apart key failKey base { db with catalogFailures := failures } :=
  ⟨h.kept, h.brought, h.embedded, h.overrides, fun k hk => (hothers k hk).trans (h.failures k hk), h.names.trans (.of_eq rfl rfl rfl rfl)⟩

theorem Apart.upsertFailure (h : Apart key failKey base db) (now : ℤ) (text : PyStr) :
    Apart key failKey base (Db.upsertFailure failKey now text db) :=
  h.failure fun _ hk => AList.lookup_insert_ne hk

theorem Apart.deleteFailure (h : Apart key failKey base db) : Apart key failKey base (Db.deleteFailure failKey db) :=
  h.failure fun _ hk => AList.lookup_erase_ne hk

/-- The row itself: deleted, with its tags. -/
theorem Apart.deleteFiles {k₀ : FileKey} (h : Apart (some k₀) failKey base db) :
    Apart (some k₀) failKey base (db.deleteFiles fun r => r.key = k₀) := by
  have hstays : ∀ r ∈ base.files.rows, some r.key ≠ some k₀ → goes (fun r => r.key = k₀) db r.id = false := by
    intro r hr hne
    rw [goes_of_get (Table.get_of_mem (h.kept r hr hne))]
    exact decide_eq_false fun heq => hne (congrArg some heq)
  refine ⟨fun r hr hne => Table.mem_filter.mpr ⟨h.kept r hr hne, ?_⟩, fun r hr hne =>
    h.brought r (Table.mem_filter.mp hr).1 hne, fun r hr hne k => ?_, fun r hr hne k => ?_, h.failures, h.names.trans (.of_eq rfl rfl rfl rfl)⟩
  · simpa using fun heq => hne (congrArg some heq)
  · rw [lookup_embedded_deleteFiles, hstays r hr hne]
    exact h.embedded r hr hne k
  · rw [lookup_override_deleteFiles, hstays r hr hne]
    exact h.overrides r hr hne k

/-- ... or stored. -/
theorem Apart.upsertFile {k₀ : FileKey} (h : Apart (some k₀) failKey base db) {cols : FileCols}
    (hrun : Db.upsertFile k₀ cols db = .ok db') : Apart (some k₀) failKey base db' := by
  rw [Db.upsertFile] at hrun
  split at hrun
  · cases hrun
    refine ⟨fun r hr hne => Table.mem_upsert.mpr (Or.inl ⟨h.kept r hr hne, fun heq => hne (congrArg some heq)⟩),
      fun r hr hne => ?_, h.embedded, h.overrides, h.failures, h.names.trans (.of_eq rfl rfl rfl rfl)⟩
    cases Table.mem_upsert.mp hr with
    | inl hold => exact h.brought r hold.1 hne
    | inr hnew =>
        rw [hnew] at hne
        exact absurd rfl hne
  · cases hrun

/-- No other file has this id. -/
def IdOf (key : Option FileKey) (base : Db) (i : ℕ) : Prop := ∀ r ∈ base.files.rows, some r.key ≠ key → r.id ≠ i

/-- The id that the database gives the key is such an id. -/
theorem Apart.idOf {k₀ : FileKey} (h : Apart (some k₀) failKey base db) {i : ℕ} (hid : db.files.idOf k₀ = some i) :
    IdOf (some k₀) base i := by
  intro r hr hne heq
  have hkey := Table.keyOf_of_mem (h.kept r hr hne)
  rw [heq, Table.idOf_eq_some_iff.mp hid] at hkey
  exact hne hkey.symm

theorem Apart.dropEmbedded (h : Apart key failKey base db) {i : ℕ} (hi : IdOf key base i) :
    Apart key failKey base { db with tagsEmbedded := keep (fun k => k.1 ≠ i) db.tagsEmbedded } := by
  refine ⟨h.kept, h.brought, fun r hr hne k => ?_, h.overrides, h.failures, h.names.trans (.of_eq rfl rfl rfl rfl)⟩
  show (keep _ db.tagsEmbedded).lookup (r.id, k) = _
  rw [lookup_keep, if_pos (by simpa using hi r hr hne)]
  exact h.embedded r hr hne k

theorem Apart.insertEmbedded (h : Apart key failKey base db) {i : ℕ} (hi : IdOf key base i) {name value : PyStr}
    (hrun : Db.insertEmbedded i name value db = .ok db') : Apart key failKey base db' := by
  rw [Db.insertEmbedded] at hrun
  split at hrun
  · cases hrun
  · split at hrun
    · cases hrun
      refine ⟨h.kept, h.brought, fun r hr hne k => ?_, h.overrides, h.failures, h.names.trans (.of_eq rfl rfl rfl rfl)⟩
      have hother : (r.id, k) ≠ (i, name) := fun heq => hi r hr hne (Prod.ext_iff.mp heq).1
      exact (AList.lookup_insert_ne hother).trans (h.embedded r hr hne k)
    · cases hrun

theorem Apart.setVal {k₀ : FileKey} (h : Apart (some k₀) failKey base db) {i : ℕ} (hi : IdOf (some k₀) base i)
    (f : FileCols → FileCols) : Apart (some k₀) failKey base { db with files := db.files.setVal i f } := by
  refine ⟨fun r hr hne => Table.mem_setVal.mpr (Or.inl ⟨h.kept r hr hne, hi r hr hne⟩), fun r hr hne => ?_, h.embedded,
    h.overrides, h.failures, h.names.trans (.of_eq rfl rfl rfl rfl)⟩
  cases Table.mem_setVal.mp hr with
  | inl hold => exact h.brought r hold.1 hne
  | inr hnew =>
      obtain ⟨r₀, hr₀, hid, heq⟩ := hnew
      have hne₀ : some r₀.key ≠ some k₀ := by rwa [heq] at hne
      exact absurd hid (hi r₀ (h.brought r₀ hr₀ hne₀) hne₀)

end Apart

/-! ### The statements of the call -/

/-- What is committed and what the connection sees are each apart from one of the databases in `B` by the row and the
failure. -/
def Near (B : Set Db) (key : Option FileKey) (failKey : PyStr) : Property := fun db view _ =>
  (∃ b ∈ B, Apart key failKey b db) ∧ ∃ b ∈ B, Apart key failKey b view

section Near

variable {B : Set Db} {key : Option FileKey} {failKey : PyStr} {lo : ℕ} {env : Env}

theorem near_rollBack : RollsBack (Near B key failKey) := fun _ _ _ h => ⟨h.1, h.1⟩

theorem keeps_execute_near (params : List Param) {run : Db → Db}
    (h : ∀ {b view}, b ∈ B → Apart key failKey b view → Apart key failKey b (run view)) :
    Keeps (Near B key failKey) lo (execute params run) fun _ => True :=
  keeps_execute near_rollBack _ fun hview => by
    obtain ⟨hcommitted, b, hb, hapart⟩ := hview
    exact ⟨hcommitted, b, hb, h hb hapart⟩

theorem keeps_checked_near (params : List Param) {run : Db → Except PyErr Db}
    (h : ∀ {b view view'}, b ∈ B → run view = .ok view' → Apart key failKey b view → Apart key failKey b view') :
    Keeps (Near B key failKey) lo (executeChecked params run) fun _ => True :=
  keeps_executeChecked near_rollBack _ fun hrun hview => by
    obtain ⟨hcommitted, b, hb, hapart⟩ := hview
    exact ⟨hcommitted, b, hb, h hb hrun hapart⟩

theorem keeps_commit_near : Keeps (Near B key failKey) lo commit fun _ => True :=
  keeps_commitOf near_rollBack fun h => ⟨h.2, h.2⟩

theorem topicWrites_near : TopicWrites (Near B key failKey) where
  rollBack := near_rollBack
  topics h honly := by
    obtain ⟨hcommitted, b, hb, hapart⟩ := h
    exact ⟨hcommitted, b, hb, hapart.onlyTopics honly⟩
  remember _ _ _ h := h

/-- A resolver of a dimension brings in names only. -/
theorem keeps_resolve_near {κ : Type} [DecidableEq κ] (L : Lookup κ)
    (hL : ∀ {db t b}, (L.table db).Extends t → Apart key failKey b db → Apart key failKey b (L.setTable db t)) (k : κ) :
    Keeps (Near B key failKey) lo (resolveLookup L k) fun _ => True :=
  keeps_resolve L near_rollBack (fun hext h => by
    obtain ⟨hcommitted, b, hb, hapart⟩ := h
    exact ⟨hcommitted, b, hb, hL hext hapart⟩) (fun _ h => h) k

theorem keeps_resolveIds_near (dims : Dims) : Keeps (Near B key failKey) lo (resolveIds dims) fun _ => True :=
  (keeps_resolve_near _ (fun hext h => h.beside rfl rfl rfl rfl (beside_customer hext).toNamesGrow) _).bind fun _ _ =>
    (keeps_resolve_near _ (fun hext h => h.beside rfl rfl rfl rfl (beside_site hext).toNamesGrow) _).bind fun _ _ =>
      (keeps_resolve_near _ (fun hext h => h.beside rfl rfl rfl rfl (beside_robot hext).toNamesGrow) _).bind fun _ _ =>
        (keeps_resolve_near _ (fun hext h => h.beside rfl rfl rfl rfl (beside_source hext).toNamesGrow) _).bind
          fun _ _ => keeps_commit_near.bind fun _ _ => keeps_pure trivial

theorem keeps_recordFailure_near (text : PyStr) : Keeps (Near B key failKey) lo (recordFailure env failKey text) fun _ => True :=
  (keeps_tick.bind fun _ _ => keeps_pure (Q := fun _ => True) trivial).bind fun now _ =>
    keeps_execute_near _ fun _ h => h.upsertFailure now text

theorem keeps_quarantineExisting_near (ids : Ids) (dims : Dims) (text : PyStr) :
    Keeps (Near B (some (ids.key dims)) failKey) lo (quarantineExisting env ids dims failKey text) fun _ => True :=
  (keeps_execute_near _ fun _ h => h.deleteFiles).bind fun _ _ =>
    (keeps_recordFailure_near text).bind fun _ _ => keeps_commit_near

/-- **Storing a file** reaches its own row, tags and failure only. -/
theorem keeps_storeFile_near (ids : Ids) (written : Written) {base : Db} (setId : ℕ) (counts : List ℕ) :
    Keeps (Near {base} (some (ids.key written.dims)) written.effKey) lo (storeFile env ids written setId counts)
      fun _ => True := by
  refine (keeps_tick.bind fun _ _ => keeps_pure (Q := fun _ => True) trivial).bind fun now _ => ?_
  refine (keeps_checked_near _ fun _ hrun h => h.upsertFile hrun).bind fun _ _ => ?_
  refine Keeps.bind (Q := IdOf (some (ids.key written.dims)) base) ?_ fun fileId hid => ?_
  · refine keeps_queryIdOf near_rollBack _ fun h hfound => ?_
    obtain ⟨_, b, rfl, hapart⟩ := h
    exact hapart.idOf hfound
  · have hidIn : ∀ {b}, b ∈ ({base} : Set Db) → IdOf (some (ids.key written.dims)) b fileId := fun hb => by
      rw [Set.mem_singleton_iff.mp hb]
      exact hid
    refine (keeps_execute_near _ fun hb h => h.dropEmbedded (hidIn hb)).bind fun _ _ => ?_
    refine (Keeps.each (fun kv => keeps_checked_near _ fun hb hrun h => h.insertEmbedded (hidIn hb) hrun) _).bind
      fun _ _ => ?_
    exact (keeps_execute_near _ fun hb h => h.setVal (hidIn hb) _).bind fun _ _ =>
      keeps_execute_near _ fun _ h => h.deleteFailure

/-- **`_write_file_row`**, its rollback and its recovery. -/
theorem keeps_writeFileRow_near (ids : Ids) (written : Written) {base : Db} :
    Keeps (Near {base} (some (ids.key written.dims)) written.effKey) lo (writeFileRow env ids written) fun _ => True := by
  refine (keeps_withConnOf near_rollBack (fun h => ⟨h.2, h.2⟩) (keeps_storingTopics topicWrites_near fun setId counts =>
    keeps_storeFile_near ids written setId counts)).attempt.bind fun r _ => ?_
  cases r with
  | ok _ => exact keeps_pure trivial
  | error e =>
      exact keeps_reload near_rollBack (fun h => h)
        ((keeps_quarantineExisting_near ids written.dims _).bind fun _ _ => keeps_pure trivial)

end Near

/-! ### What a call that returns has stored -/

section Returned

variable {env : Env} {w w' : World}

theorem recordFailure_of_ok {key text : PyStr} {u : Unit} (h : recordFailure env key text w = (.ok u, w')) :
    ∃ now, w'.conn.working = Db.upsertFailure key now text w.conn.working ∧ w'.conn.committed = w.conn.committed := by
  rw [recordFailure, bind_of_ok (nowNs_apply env w)] at h
  exact ⟨_, execute_of_ok (w := w.tickClock) h⟩

/-- **A quarantine that returns** is committed. -/
theorem quarantineExisting_of_ok {ids : Ids} {dims : Dims} {effKey text : PyStr} {u : Unit}
    (h : quarantineExisting env ids dims effKey text w = (.ok u, w')) :
    ∃ now, w'.conn.working = quarantined (ids.key dims) effKey now text w.conn.working ∧
      w'.conn.committed = w'.conn.working := by
  obtain ⟨_, w₁, hdelete, hrest⟩ := bind_eq_ok h
  obtain ⟨_, w₂, hrecord, hcommit⟩ := bind_eq_ok hrest
  obtain ⟨now, hview, _⟩ := recordFailure_of_ok hrecord
  obtain ⟨hcommitted, hworking, _⟩ := commit_of_ok hcommit
  refine ⟨now, ?_, hcommitted.trans hworking.symm⟩
  rw [hworking, hview, (execute_of_ok hdelete).1]
  rfl

/-- **A file that is stored.** -/
theorem storeFile_of_ok {ids : Ids} {written : Written} {setId : ℕ} {counts : List ℕ} {u : Unit}
    (h : storeFile env ids written setId counts w = (.ok u, w')) :
    ∃ now, w'.conn.working = stored (ids.key written.dims) written now setId counts w.conn.working ∧
      w'.conn.committed = w.conn.committed := by
  rw [storeFile, bind_of_ok (nowNs_apply env w)] at h
  obtain ⟨_, w₁, hupsert, h⟩ := bind_eq_ok h
  obtain ⟨fileId, w₂, hid, h⟩ := bind_eq_ok h
  obtain ⟨_, w₃, hdrop, h⟩ := bind_eq_ok h
  obtain ⟨_, w₄, htags, h⟩ := bind_eq_ok h
  obtain ⟨_, w₅, hflag, hclear⟩ := bind_eq_ok h
  rw [deriveTags_eq_nil] at htags
  cases htags
  obtain ⟨hrun, hcommitted₁⟩ := executeChecked_of_ok hupsert
  obtain ⟨hfound, hview₂, hcommitted₂⟩ := queryId_of_ok hid
  obtain ⟨hview₃, hcommitted₃⟩ := execute_of_ok hdrop
  obtain ⟨hview₅, hcommitted₅⟩ := execute_of_ok hflag
  obtain ⟨hview₆, hcommitted₆⟩ := execute_of_ok hclear
  rw [Db.upsertFile] at hrun
  split at hrun
  · have hview₁ := (Except.ok.inj hrun).symm
    refine ⟨env.timeNs w.clock, ?_, by rw [hcommitted₆, hcommitted₅, hcommitted₃, hcommitted₂, hcommitted₁]; rfl⟩
    rw [hview₁] at hfound
    have hfileId : fileId = w.conn.working.files.upsertId (ids.key written.dims) :=
      (Option.some.inj ((Table.idOf_upsert_self _ _ _).symm.trans hfound)).symm
    rw [hview₆, hview₅, hview₃, hview₂, hview₁, hfileId]
    show Db.deleteFailure _ _ = stored _ _ _ _ _ _
    simp only [Db.deleteFailure, stored, World.tickClock_conn, Table.setVal_upsert]
    rfl
  · cases hrun

/-- The topics of a file are stored beside what the database was, and nothing is committed. -/
def OnlyTopicsFrom (base : Db) : Property := fun db view _ => db = base ∧ OnlyTopics base view

theorem topicWrites_onlyTopicsFrom (base : Db) : TopicWrites (OnlyTopicsFrom base) where
  rollBack db view _ h := ⟨h.1, by rw [h.1]; exact OnlyTopics.refl base⟩
  topics h honly := ⟨h.1, h.2.trans honly⟩
  remember _ _ _ h := h

/-- **The per-file transaction that returns** has stored the topics and the file. -/
theorem fileTransaction_of_ok {ids : Ids} {written : Written} {base : Db} {u : Unit}
    (hbase : w.conn.committed = base ∧ w.conn.working = base) (h : fileTransaction env ids written w = (.ok u, w')) :
    ∃ view now setId counts, OnlyTopics base view ∧
      w'.conn.working = stored (ids.key written.dims) written now setId counts view := by
  have hI := topicWrites_onlyTopicsFrom base
  have hstart : HoldsAt (OnlyTopicsFrom base) w := ⟨hbase.1, by rw [hbase.2]; exact OnlyTopics.refl base⟩
  obtain ⟨byTopic, w₁, hchannels, h⟩ := bind_eq_ok h
  obtain ⟨setId, w₂, hset, h⟩ := bind_eq_ok h
  have hafter₁ := (keeps_channels hI _).ran hstart hchannels
  have hafter₂ := (keeps_resolveTopicSet hI _ _).ran hafter₁ hset
  dsimp only at h
  split at h
  · obtain ⟨_, _, hraise, _⟩ := bind_eq_ok h
    cases hraise
  · obtain ⟨now, hview, _⟩ := storeFile_of_ok h
    exact ⟨_, now, setId, _, hafter₂.2, hview⟩

/-- **`_write_file_row` that returns**: the transaction is committed, or all of it rolled back and the file quarantined. -/
theorem writeFileRow_of_ok {ids : Ids} {written : Written} {base : Db} {result : CatalogResult}
    (hbase : w.conn.committed = base ∧ w.conn.working = base) (h : writeFileRow env ids written w = (.ok result, w')) :
    w'.conn.committed = w'.conn.working ∧
      ((result.status = .cataloged ∧ ∃ view now setId counts, OnlyTopics base view ∧
          w'.conn.working = stored (ids.key written.dims) written now setId counts view) ∨
        (result.status = .failed ∧ ∃ now text,
          w'.conn.working = quarantined (ids.key written.dims) written.effKey now text base)) := by
  rcases hrun : withConn (fileTransaction env ids written) w with ⟨out, w₁⟩
  have hattempt : attempt (withConn (fileTransaction env ids written)) w = (.ok out, w₁) := by rw [attempt_apply, hrun]
  rw [writeFileRow, bind_of_ok hattempt] at h
  cases out with
  | ok u =>
      cases h
      obtain ⟨w₂, hbody, hcommit⟩ := withConn_of_ok hrun
      obtain ⟨hcommitted, hworking, _⟩ := commit_of_ok hcommit
      obtain ⟨view, now, setId, counts, honly, hview⟩ := fileTransaction_of_ok hbase hbody
      exact ⟨hcommitted.trans hworking.symm, Or.inl ⟨rfl, view, now, setId, counts, honly, hworking.trans hview⟩⟩
  | error e =>
      obtain ⟨caches, w₂, hload, h⟩ := bind_eq_ok h
      obtain ⟨_, w₃, hchange, h⟩ := bind_eq_ok h
      obtain ⟨_, w₄, hquarantine, hpure⟩ := bind_eq_ok h
      cases hpure
      cases hchange
      have hcalm := calm_loadCaches w₁ caches w₂ hload
      rw [loadCaches_quiet (quiet_scripted w₁)] at hcalm
      have hloaded : w₂.conn.working = w₁.conn.working :=
        (congrArg (fun v => v.conn.working) (Prod.ext_iff.mp hcalm).2).symm
      have hrolled := (withConn_of_error (keepsCommitted_fileTransaction env ids written) hrun).2
      obtain ⟨now, hview, hcommitted⟩ := quarantineExisting_of_ok hquarantine
      refine ⟨hcommitted, Or.inr ⟨rfl, now, e.errorText, ?_⟩⟩
      rw [hview]
      show quarantined _ _ _ _ w₂.conn.working = _
      rw [hloaded, hrolled, hbase.1]

end Returned

/-! ### The exits -/

/-- How `catalog_object` returns. -/
inductive CallExit where
  | cataloged
  | skipped
  | broken
  | vanished
  | unparseable
  deriving DecidableEq

/-- Nothing changes but the file of one identity and one failure. -/
structure Elsewhere (own : Option Dims) (failKey : PyStr) (before after : Db) : Prop where
  kept : ∀ r ∈ before.files.rows, before.namesOf r.key ≠ own → r ∈ after.files.rows
  brought : ∀ r ∈ after.files.rows, after.namesOf r.key ≠ own → r ∈ before.files.rows
  embedded : ∀ r ∈ before.files.rows, before.namesOf r.key ≠ own → ∀ k,
    after.tagsEmbedded.lookup (r.id, k) = before.tagsEmbedded.lookup (r.id, k)
  overrides : ∀ r ∈ before.files.rows, before.namesOf r.key ≠ own → ∀ k,
    after.tagsOverride.lookup (r.id, k) = before.tagsOverride.lookup (r.id, k)
  failures : ∀ k ≠ failKey, after.catalogFailures.lookup k = before.catalogFailures.lookup k

/-- The identity has exactly one row, with the fingerprint it was given and the id it had, and its key no failure. -/
structure Cataloged (dims : Dims) (effKey etag : PyStr) (before after : Db) : Prop where
  row : ∃ r ∈ after.files.rows, after.namesOf r.key = some dims ∧ r.val.etag = etag ∧
    (∀ r' ∈ after.files.rows, after.namesOf r'.key = some dims → r' = r) ∧
      ∀ r' ∈ before.files.rows, before.namesOf r'.key = some dims → r.id = r'.id
  failure : after.catalogFailures.lookup effKey = none
  elsewhere : Elsewhere (some dims) effKey before after

/-- The identity has no row, its key has a failure, and nothing is left of topics, schemas and topic sets. -/
structure Broken (dims : Dims) (effKey : PyStr) (before after : Db) : Prop where
  row : ∀ r ∈ after.files.rows, after.namesOf r.key ≠ some dims
  failure : (after.catalogFailures.lookup effKey).isSome
  topicNames : after.topicNames = before.topicNames
  schemas : after.schemas = before.schemas
  topicSets : after.topicSets = before.topicSets
  members : after.topicSetMembers = before.topicSetMembers
  elsewhere : Elsewhere (some dims) effKey before after

/-- **The footprint of an exit**, given the fingerprint that the object was found with and the identity it resolved to. -/
def CallExit.Holds (key : PyStr) (found : Except PyErr (Option Stat)) (own : Option (Dims × PyStr)) (result : CatalogResult)
    (before after : Conn) : CallExit → Prop
  | .cataloged => result.status = .cataloged ∧ ∃ stat dims effKey, found = .ok (some stat) ∧ own = some (dims, effKey) ∧
      after.committed = after.working ∧ Cataloged dims effKey stat.etag before.working after.working
  | .skipped => result.status = .skipped ∧ after.committed = after.working ∧ after.working = before.working
  | .broken => result.status = .failed ∧ (∃ stat, found = .ok (some stat)) ∧ ∃ dims effKey, own = some (dims, effKey) ∧
      after.committed = after.working ∧ Broken dims effKey before.working after.working
  | .vanished => result.status = .failed ∧ found = .ok none ∧ after.committed = before.committed ∧
      after.working = before.working
  | .unparseable => result.status = .failed ∧ (∃ stat, found = .ok (some stat)) ∧ own = none ∧
      after.committed = after.working ∧
        ∃ now, after.working = Db.upsertFailure key now (py "unparseable key") before.working

/-- How a call ends: with exactly one exit, or with an exception and nothing changed elsewhere. -/
structure CallEnded (key : PyStr) (found : Except PyErr (Option Stat)) (own : Option (Dims × PyStr)) (before : Conn)
    (run : Except PyErr CatalogResult × World) : Prop where
  returned : ∀ result, run.1 = .ok result → ∃! exit : CallExit, exit.Holds key found own result before run.2.conn
  raised : ∀ e, run.1 = .error e → ∀ db, db = run.2.conn.committed ∨ db = run.2.conn.working →
    ∃ db₀, (db₀ = before.committed ∨ db₀ = before.working) ∧
      Elsewhere (own.map Prod.fst) (own.elim key Prod.snd) db₀ db

section Exits

variable {env : Env} {w w' : World} {key : PyStr} {found : Except PyErr (Option Stat)} {own : Option (Dims × PyStr)}
  {result : CatalogResult} {before after : Conn}

/-- **No two exits hold at once.** -/
theorem CallExit.unique {exit exit' : CallExit} (h : exit.Holds key found own result before after)
    (h' : exit'.Holds key found own result before after) : exit = exit' := by
  cases exit <;> cases exit' <;> simp only [CallExit.Holds] at h h' <;> grind

theorem existsUnique_of_holds (exit : CallExit) (h : exit.Holds key found own result before after) :
    ∃! exit : CallExit, exit.Holds key found own result before after :=
  ⟨exit, h, fun _ h' => CallExit.unique h' h⟩

theorem Apart.elsewhere {base db : Db} {dims : Dims} {k : FileKey} {failKey : PyStr} (h : Apart (some k) failKey base db)
    (hkey : fileKey base dims = some k) : Elsewhere (some dims) failKey base db := by
  have hbefore : ∀ r : Row FileKey FileCols, base.namesOf r.key ≠ some dims → some r.key ≠ some k := by
    intro r hne heq
    rw [Option.some.inj heq] at hne
    exact hne (namesOf_fileKey hkey)
  have hafter : ∀ r : Row FileKey FileCols, db.namesOf r.key ≠ some dims → some r.key ≠ some k := by
    intro r hne heq
    rw [Option.some.inj heq] at hne
    exact hne (namesOf_fileKey (fileKey_mono h.names hkey))
  exact ⟨fun r hr hne => h.kept r hr (hbefore r hne), fun r hr hne => h.brought r hr (hafter r hne),
    fun r hr hne => h.embedded r hr (hbefore r hne), fun r hr hne => h.overrides r hr (hbefore r hne), h.failures⟩

/-- A change of no row at all. -/
theorem Apart.elsewhere_none {base db : Db} {failKey : PyStr} (h : Apart none failKey base db) (own : Option Dims) :
    Elsewhere own failKey base db :=
  ⟨fun r hr _ => h.kept r hr nofun, fun r hr _ => h.brought r hr nofun, fun r hr _ => h.embedded r hr nofun,
    fun r hr _ => h.overrides r hr nofun, h.failures⟩

/-- Seen from before the names came in. -/
theorem Elsewhere.onlyDims {base db db' : Db} {own : Option Dims} {failKey : PyStr} (h : Elsewhere own failKey base db')
    (ho : OnlyDims db base) (hplaced : Placed db) : Elsewhere own failKey db db' := by
  have hplaced' := hplaced.onlyDims ho
  have hsame : base.files = db.files ∧ base.tagsEmbedded = db.tagsEmbedded ∧ base.tagsOverride = db.tagsOverride ∧
      base.catalogFailures = db.catalogFailures := by
    obtain ⟨_, _, _, _, _, rfl⟩ := ho
    exact ⟨rfl, rfl, rfl, rfl⟩
  obtain ⟨hfiles, hembedded, hoverride, hfailures⟩ := hsame
  have hnames : ∀ r ∈ db.files.rows, db.namesOf r.key ≠ own → base.namesOf r.key ≠ own := by
    intro r hr hne
    rw [namesOf_fileKey (hplaced'.named r (hfiles ▸ hr)), ← namesOf_fileKey (hplaced.named r hr)]
    exact hne
  refine ⟨fun r hr hne => h.kept r (hfiles ▸ hr) (hnames r hr hne), fun r hr hne => hfiles ▸ h.brought r hr hne,
    fun r hr hne k => ?_, fun r hr hne k => ?_, fun k hk => ?_⟩
  · rw [h.embedded r (hfiles ▸ hr) (hnames r hr hne), hembedded]
  · rw [h.overrides r (hfiles ▸ hr) (hnames r hr hne), hoverride]
  · rw [h.failures k hk, hfailures]

end Exits

section Footprints

variable {before base after : Db} {dims : Dims} {k : FileKey}

/-- The row with the names of an identity has its key. -/
theorem Placed.key_of_names (h : Placed base) (hkey : fileKey base dims = some k) {r : Row FileKey FileCols}
    (hr : r ∈ base.files.rows) (hnames : base.namesOf r.key = some dims) : r.key = k := by
  have hnamed := h.named r hr
  rw [h.origin_of_names hr hnames, hkey] at hnamed
  exact (Option.some.inj hnamed).symm

/-- The identity of a row had its key before the names came in. -/
theorem fileKey_of_row (h : Placed before) (ho : OnlyDims before base) (hkey : fileKey base dims = some k)
    {r : Row FileKey FileCols} (hfind : base.files.find k = some r) : fileKey before dims = some k := by
  obtain ⟨hr, hrk⟩ := Table.find_eq_some_iff.mp hfind
  have hplaced := h.onlyDims ho
  have hdims : r.val.origin.dims = dims := fileKey_injective (hplaced.named r hr) (hrk ▸ hkey)
  obtain ⟨_, _, _, _, _, rfl⟩ := ho
  rw [← hdims, ← hrk]
  exact h.named r hr

/-- A row has the names after new names came in that it had before. -/
theorem Placed.names_onlyDims (h : Placed before) (ho : OnlyDims before base) {r : Row FileKey FileCols}
    (hr : r ∈ before.files.rows) : r ∈ base.files.rows ∧ base.namesOf r.key = before.namesOf r.key := by
  have hplaced := h.onlyDims ho
  have hmem : r ∈ base.files.rows := by
    obtain ⟨_, _, _, _, _, rfl⟩ := ho
    exact hr
  exact ⟨hmem, by rw [namesOf_fileKey (hplaced.named r hmem), namesOf_fileKey (h.named r hr)]⟩

/-- **What storing a file leaves.** -/
theorem cataloged_of_stored (hplaced : Placed before) (ho : OnlyDims before base) {written : Written}
    (hkey : fileKey base written.dims = some k) {view : Db} (honly : OnlyTopics base view) {now : ℤ} {setId : ℕ}
    {counts : List ℕ} (hafter : after = stored k written now setId counts view)
    (hapart : Apart (some k) written.effKey base after) :
    Cataloged written.dims written.effKey written.stat.etag before after := by
  have hbase := hplaced.onlyDims ho
  have hnamesAfter : ∀ {k' : FileKey} {dims' : Dims}, fileKey base dims' = some k' → after.namesOf k' = some dims' :=
    fun hk => namesOf_fileKey (fileKey_mono hapart.names hk)
  have hfiles : view.files = base.files := by
    obtain ⟨_, _, _, _, rfl⟩ := honly
    rfl
  have hrows : after.files = base.files.upsert k (storedCols written now setId (encodeCountsBlob counts)) := by
    rw [hafter, ← hfiles]
    rfl
  refine ⟨⟨⟨base.files.upsertId k, k, storedCols written now setId (encodeCountsBlob counts)⟩, ?_, hnamesAfter hkey, rfl,
    fun r' hr' hnames => ?_, fun r' hr' hnames => ?_⟩, ?_, (hapart.elsewhere hkey).onlyDims ho hplaced⟩
  · rw [hrows]
    exact Table.mem_upsert.mpr (Or.inr rfl)
  · rw [hrows] at hr'
    cases Table.mem_upsert.mp hr' with
    | inl hold =>
        rw [hnamesAfter (hbase.named r' hold.1), ← namesOf_fileKey (hbase.named r' hold.1)] at hnames
        exact absurd (hbase.key_of_names hkey hold.1 hnames) hold.2
    | inr hnew => exact hnew
  · obtain ⟨hmem, hsame⟩ := hplaced.names_onlyDims ho hr'
    have hkey' := hbase.key_of_names hkey hmem (hsame.trans hnames)
    show base.files.upsertId k = r'.id
    rw [Table.upsertId, ← hkey', Table.idOf_of_mem hmem]
    rfl
  · rw [hafter]
    exact AList.lookup_erase _ _

/-- **What a quarantine leaves.** -/
theorem broken_of_quarantined (hplaced : Placed before) (ho : OnlyDims before base) (hkey : fileKey base dims = some k)
    {effKey text : PyStr} {now : ℤ} (hafter : after = quarantined k effKey now text base)
    (hapart : Apart (some k) effKey base after) : Broken dims effKey before after := by
  have hbase := hplaced.onlyDims ho
  have hsame : base.topicNames = before.topicNames ∧ base.schemas = before.schemas ∧ base.topicSets = before.topicSets ∧
      base.topicSetMembers = before.topicSetMembers := by
    obtain ⟨_, _, _, _, _, rfl⟩ := ho
    exact ⟨rfl, rfl, rfl, rfl⟩
  refine ⟨fun r hr hnames => ?_, ?_, ?_, ?_, ?_, ?_, (hapart.elsewhere hkey).onlyDims ho hplaced⟩
  · rw [hafter] at hr hnames
    obtain ⟨hmem, hne⟩ := Table.mem_filter.mp hr
    have hkey' : r.key = k := hbase.key_of_names hkey hmem hnames
    simp [hkey'] at hne
  · rw [hafter]
    show ((AList.insert effKey (now, text) base.catalogFailures).lookup effKey).isSome
    rw [AList.lookup_insert]
    rfl
  · rw [hafter, ← hsame.1]
    rfl
  · rw [hafter, ← hsame.2.1]
    rfl
  · rw [hafter, ← hsame.2.2.1]
    rfl
  · rw [hafter, ← hsame.2.2.2]
    rfl

end Footprints

/-! ### The call -/

section Call

variable {env : Env} {w w' : World} {key : PyStr} {source : Source}

/-- What an identity with a key resolves to changes nothing. -/
theorem Seated.resolveIds_present (h : HoldsAt (Seated ∅) w) {dims : Dims} {k : FileKey}
    (hkey : fileKey w.conn.working dims = some k) {ids : Ids} (hrun : Builder.resolveIds dims w = (.ok ids, w')) :
    w'.conn.working = w.conn.working := by
  rw [← h.exact.compositeIds dims, compositeIds, Option.map_eq_some_iff] at hkey
  obtain ⟨ids', hcached, _⟩ := hkey
  have hcalm := calm_resolveIds dims w ids w' hrun
  rw [resolveIds_cached (w := scripted w []) rfl hcached] at hcalm
  exact (congrArg (fun v => v.conn.working) (Prod.ext_iff.mp hcalm).2).symm

theorem keeps_catalogResolved_near {lo : ℕ} {base : Db} (ids : Ids) (dims : Dims) (effKey : PyStr) (stat : Stat) :
    Keeps (Near {base} (some (ids.key dims)) effKey) lo (catalogResolved env key source stat dims effKey ids)
      fun _ => True := by
  refine (keeps_query near_rollBack _ _).bind fun existing _ => ?_
  split
  · exact keeps_pure trivial
  · refine Keeps.bind (Q := fun _ => True) (Keeps.attempt (keeps_tick.bind fun t _ => ?_)) fun read _ => ?_
    · split
      · exact keeps_pure trivial
      · exact keeps_raise _
    · cases read with
      | error e => exact (keeps_quarantineExisting_near ids dims _).bind fun _ _ => keeps_pure trivial
      | ok summary => exact keeps_writeFileRow_near ids ⟨dims, effKey, stat, summary⟩

theorem Near.apart {B : Set Db} {k : Option FileKey} {failKey : PyStr} (h : HoldsAt (Near B k failKey) w) {db : Db}
    (hdb : db = w.conn.committed ∨ db = w.conn.working) : ∃ b ∈ B, Apart k failKey b db := by
  cases hdb with
  | inl hcommitted => rw [hcommitted]; exact h.1
  | inr hworking => rw [hworking]; exact h.2

/-- **An object with an identity**, from the commit of its names on. -/
theorem catalogResolved_ended {before : Conn} {base : Db} (hplaced : Placed before.working)
    (ho : OnlyDims before.working base) (hw : w.conn.committed = base ∧ w.conn.working = base) {dims : Dims} {ids : Ids}
    (hkey : fileKey base dims = some (ids.key dims))
    (hpresent : fileKey before.working dims = some (ids.key dims) → base = before.working) (effKey : PyStr) (stat : Stat) :
    CallEnded key (.ok (some stat)) (some (dims, effKey)) before (catalogResolved env key source stat dims effKey ids w) := by
  have hstart : HoldsAt (Near {base} (some (ids.key dims)) effKey) w :=
    ⟨⟨base, rfl, by rw [hw.1]; exact Apart.refl _ _ _⟩, ⟨base, rfl, by rw [hw.2]; exact Apart.refl _ _ _⟩⟩
  rcases hrun : catalogResolved env key source stat dims effKey ids w with ⟨out, w'⟩
  have hafter := (keeps_catalogResolved_near ids dims effKey stat).ran hstart hrun
  refine ⟨fun result hok => ?_, fun e _ db hdb => ?_⟩
  · obtain ⟨b, hb, hapart⟩ := hafter.2
    rw [Set.mem_singleton_iff.mp hb] at hapart
    rw [show out = .ok result from hok] at hrun
    obtain ⟨existing, w₁, hquery, hrest⟩ := bind_eq_ok hrun
    obtain ⟨hexisting, hworking₁, hcommitted₁, _⟩ := query_of_ok hquery
    have hbase₁ : w₁.conn.committed = base ∧ w₁.conn.working = base := ⟨hcommitted₁.trans hw.1, hworking₁.trans hw.2⟩
    split at hrest
    · rename_i hskip
      cases hrest
      rw [hexisting, hw.2, Option.map_eq_some_iff] at hskip
      obtain ⟨r, hfind, _⟩ := hskip
      have hunchanged : base = before.working := hpresent (fileKey_of_row hplaced ho hkey hfind)
      exact existsUnique_of_holds .skipped ⟨rfl, hbase₁.1.trans hbase₁.2.symm, hbase₁.2.trans hunchanged⟩
    · rw [bind_of_ok (attempt_ask _ w₁)] at hrest
      cases hread : source.readSummary w₁.clock key stat.size with
      | error e =>
          rw [hread] at hrest
          obtain ⟨_, w₂, hquarantine, hpure⟩ := bind_eq_ok hrest
          cases hpure
          obtain ⟨now, hview, hcommitted⟩ := quarantineExisting_of_ok hquarantine
          rw [show w₁.tickClock.conn.working = base from hbase₁.2] at hview
          exact existsUnique_of_holds .broken ⟨rfl, ⟨stat, rfl⟩, dims, effKey, rfl, hcommitted,
            broken_of_quarantined hplaced ho hkey hview hapart⟩
      | ok summary =>
          rw [hread] at hrest
          obtain ⟨hcommitted, hended⟩ := writeFileRow_of_ok (w := w₁.tickClock) hbase₁ hrest
          cases hended with
          | inl hstored =>
              obtain ⟨hstatus, view, now, setId, counts, honly, hview⟩ := hstored
              exact existsUnique_of_holds .cataloged ⟨hstatus, stat, dims, effKey, rfl, rfl, hcommitted,
                cataloged_of_stored hplaced ho hkey honly hview hapart⟩
          | inr hrolled =>
              obtain ⟨hstatus, now, text, hview⟩ := hrolled
              exact existsUnique_of_holds .broken ⟨hstatus, ⟨stat, rfl⟩, dims, effKey, rfl, hcommitted,
                broken_of_quarantined hplaced ho hkey hview hapart⟩
  · obtain ⟨b, hb, hapart⟩ := Near.apart hafter hdb
    rw [Set.mem_singleton_iff.mp hb] at hapart
    exact ⟨before.working, Or.inr rfl, (hapart.elsewhere hkey).onlyDims ho hplaced⟩

/-- **`catalog_object` with a fingerprint.** -/
theorem catalogWithStat_ended (h : HoldsAt (Seated ∅) w) (stat : Stat) :
    CallEnded key (.ok (some stat)) (trustedDims (source.intendedKey w.clock key) key) w.conn
      (catalogObject env key source (some stat) w) := by
  have hstart : ∀ {k failKey}, HoldsAt (Near {w.conn.committed, w.conn.working} k failKey) w.tickClock := fun {k failKey} =>
    ⟨⟨_, Or.inl rfl, Apart.refl _ _ _⟩, ⟨_, Or.inr rfl, Apart.refl _ _ _⟩⟩
  rw [catalogObject_apply]
  cases hown : trustedDims (source.intendedKey w.clock key) key with
  | none =>
      dsimp only
      rcases hrun : (recordFailure env key (py "unparseable key") >>= fun _ => commit >>= fun _ =>
          pure ⟨.failed, py "unparseable key"⟩ : Py CatalogResult) w.tickClock with ⟨out, w'⟩
      refine ⟨fun result hok => ?_, fun e _ db hdb => ?_⟩
      · rw [show out = .ok result from hok] at hrun
        obtain ⟨_, w₁, hrecord, hrest⟩ := bind_eq_ok hrun
        obtain ⟨_, w₂, hcommit, hpure⟩ := bind_eq_ok hrest
        cases hpure
        obtain ⟨now, hview, _⟩ := recordFailure_of_ok hrecord
        obtain ⟨hcommitted, hworking, _⟩ := commit_of_ok hcommit
        exact existsUnique_of_holds .unparseable
          ⟨rfl, ⟨stat, rfl⟩, rfl, hcommitted.trans hworking.symm, now, hworking.trans hview⟩
      · have hkeeps : Keeps (Near {w.conn.committed, w.conn.working} none key) 0
            (recordFailure env key (py "unparseable key") >>= fun _ => commit >>= fun _ =>
              pure ⟨.failed, py "unparseable key"⟩ : Py CatalogResult) fun _ => True :=
          (keeps_recordFailure_near _).bind fun _ _ => keeps_commit_near.bind fun _ _ => keeps_pure trivial
        obtain ⟨b, hb, hapart⟩ := Near.apart (hkeeps.ran hstart hrun) hdb
        exact ⟨b, hb, hapart.elsewhere_none _⟩
  | some trusted =>
      obtain ⟨dims, effKey⟩ := trusted
      dsimp only
      rcases hids : Builder.resolveIds dims w.tickClock with ⟨r, w₁⟩
      cases r with
      | error e =>
          rw [bind_of_error hids]
          refine ⟨nofun, fun _ _ db hdb => ?_⟩
          have hkeeps : Keeps (Near {w.conn.committed, w.conn.working} none effKey) 0 (Builder.resolveIds dims) fun _ => True :=
            keeps_resolveIds_near dims
          obtain ⟨b, hb, hapart⟩ := Near.apart (hkeeps.ran hstart hids) hdb
          exact ⟨b, hb, hapart.elsewhere_none _⟩
      | ok ids =>
          rw [bind_of_ok hids]
          have hseated : HoldsAt (Seated ∅) w.tickClock := h
          obtain ⟨ho, hsync, _, hkey⟩ := Seated.ran_resolveIds hseated hids
          exact catalogResolved_ended h.working ho ⟨hsync, rfl⟩ hkey
            (fun hbefore => Seated.resolveIds_present (w := w.tickClock) hseated hbefore hids) effKey stat

/-- The fingerprint of the object: given by the caller, or asked of the source. -/
def fingerprintOf (source : Source) (key : PyStr) (t : ℕ) : Option Stat → Except PyErr (Option Stat)
  | some stat => .ok (some stat)
  | none => source.stat t key

/-- The identity of the object, from what the source says about its intended key after that. -/
def identityOf (source : Source) (key : PyStr) (t : ℕ) : Option Stat → Option (Dims × PyStr)
  | some _ => trustedDims (source.intendedKey t key) key
  | none => trustedDims (source.intendedKey (t + 1) key) key

/-- **How `catalog_object` ends**, in every state that operations reach in which `_resolve_ids` raises only before it has
inserted a row, for every key and source and whatever statements fail: if it returns, exactly one exit holds, and if it
raises, nothing has changed elsewhere. -/
theorem catalogObject_ended (h : OperationRun env clearing w) (key : PyStr) (source : Source) (stat : Option Stat)
    (script : List (Option Fault)) :
    CallEnded key (fingerprintOf source key w.clock stat) (identityOf source key w.clock stat) (scripted w script).conn
      (catalogObject env key source stat (scripted w script)) := by
  have hreached : HoldsAt (Seated ∅) w := (passes_seated_clearing env).run seated_opened seated_empty h
  have hseated : HoldsAt (Seated ∅) (scripted w script) := hreached
  cases stat with
  | some stat => exact catalogWithStat_ended hseated stat
  | none =>
      have hask : ask (fun t => source.stat t key) (scripted w script) =
          (source.stat w.clock key, (scripted w script).tickClock) := by
        have hatt := attempt_ask (fun t => source.stat t key) (scripted w script)
        rw [attempt_apply] at hatt
        exact Prod.ext (Except.ok.inj (Prod.ext_iff.mp hatt).1) (Prod.ext_iff.mp hatt).2
      rw [catalogObject, fingerprintOf]
      cases hfound : source.stat w.clock key with
      | error e =>
          rw [hfound] at hask
          rw [bind_of_error hask]
          refine ⟨fun _ hok => (by cases hok), fun _ _ db hdb => ⟨db, hdb, ?_⟩⟩
          exact (Apart.refl none _ db).elsewhere_none _
      | ok found =>
          rw [hfound] at hask
          rw [bind_of_ok hask]
          cases found with
          | none =>
              refine ⟨fun result hok => ?_, fun _ herror => (by cases herror)⟩
              cases hok
              exact existsUnique_of_holds .vanished ⟨rfl, rfl, rfl, rfl⟩
          | some stat =>
              have htick : HoldsAt (Seated ∅) (scripted w script).tickClock := hseated
              exact catalogWithStat_ended htick stat

end Call

/-! ### A call without an exit -/

/-- A bucket that the builder may not read. -/
def deniedStore : S3Store where
  object _ _ _ := .error (.other (py "ClientError") (py "An error occurred (403) when calling the HeadObject operation"))
  pages _ := .ok []

/-- **A HEAD that is refused** has none of the exits: the call raises. -/
theorem denied_no_exit :
    ¬∀ (w : World) (key : PyStr) (source : Source), OperationRun oneTopicEnv clearing w →
      ∃ result, (catalogObject oneTopicEnv key source none w).1 = .ok result ∧ ∃! exit : CallExit,
        exit.Holds key (fingerprintOf source key w.clock none) (identityOf source key w.clock none) result w.conn
          (catalogObject oneTopicEnv key source none w).2.conn := by
  intro hall
  obtain ⟨result, hok, _⟩ := hall (opened Db.empty 0) earlierKey (deniedStore.source chunkParser) ⟨0, ReflTransGen.refl⟩
  have hraises : (catalogObject oneTopicEnv earlierKey (deniedStore.source chunkParser) none (opened Db.empty 0)).1 =
      .error (.other (py "ClientError") (py "An error occurred (403) when calling the HeadObject operation")) := rfl
  rw [hraises] at hok
  cases hok

/-! ### A transaction that fails -/

theorem clearing_of_resolving {dims : Dims} {w : World} (h : resolving.ids dims w) : clearing.ids dims w := by
  obtain ⟨ids, w', hok⟩ := h
  intro e w₁ herror
  have hboth := hok.symm.trans herror
  cases (Prod.ext_iff.mp hboth).1

/-- The recording of one customer is cataloged. -/
theorem run_oneCustomer : OperationRun oneTopicEnv clearing oneCustomer := by
  have hempty : HoldsAt (Seated ∅) (opened Db.empty 0) := by
    rw [opened_eq]
    exact seated_empty
  have hearlier : trustedDims none earlierKey = some (earlierDims, earlierKey) := by decide +kernel
  have hbind : bindError (nameParams earlierDims) = none := by decide
  have hgate : GatedCall oneTopicEnv clearing (bucketCall earlierKey) (scripted (opened Db.empty 0) []) := by
    intro stat hstat dims effKey htrusted
    exact ⟨clearing_of_resolving ((gated_bucketCall hearlier hbind hempty) stat hstat dims effKey htrusted).1,
      fun _ _ _ _ _ _ _ _ _ => trivial⟩
  exact ⟨0, ReflTransGen.single (OperationStep.call _ _ [] hgate)⟩

/-- The upsert into `files` of another recording of the robot fails, and takes the transaction with it. -/
def failingUpsert : List (Option Fault) := [none, none, some .rollBack]

theorem catalogObject_ended_failing :
    CallEnded laterKey (fingerprintOf (s3Source (fun _ => bucketOf laterKey) []) laterKey oneCustomer.clock none)
      (identityOf (s3Source (fun _ => bucketOf laterKey) []) laterKey oneCustomer.clock none)
      (scripted oneCustomer failingUpsert).conn
      (catalogObject oneTopicEnv laterKey (s3Source (fun _ => bucketOf laterKey) []) none
        (scripted oneCustomer failingUpsert)) :=
  catalogObject_ended run_oneCustomer laterKey (s3Source (fun _ => bucketOf laterKey) []) none failingUpsert

end McapCatalog.Builder
