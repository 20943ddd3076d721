import McapCatalog.Acts
import McapCatalog.Library.TwoRuns

/-!
# Calls that do not depend on the time

The catalog stores when a file was cataloged and when a key failed, and reads neither.  So two runs of a call at different
times exit the same way and leave the same rows, up to these times.

* `SameRows`, `SameButTimes` — databases and worlds that differ in times only;
* `alike_statement`, `alike_commit`, `alike_withConn`, `alike_nowNs` — the effects, under any script of failing statements;
* `TimeFree` — a lookup table stores no time, so its resolver does not depend on one;
* `alike_resolveIds`, `alike_quarantineExisting`, `alike_writeFileRow` — **the calls that write.**
-/

namespace McapCatalog.Builder

open McapCatalog.PyText McapCatalog.PyError McapCatalog.KeyParse McapCatalog.McapSummary McapCatalog.Varint
open McapCatalog.Storage McapCatalog.Tables McapCatalog.RowidTable McapCatalog.KeyedRows
open McapCatalog.Connection McapCatalog.CatalogDb
open McapCatalog.SurvivingState McapCatalog.SurvivingState.Comp

/-! ### Rows up to times -/

/-- The columns of a file without the time it was cataloged at. -/
def undatedCols (cols : FileCols) : FileCols := { cols with catalogedAtNs := 0 }

/-- The database without those times, and without the two other tables that hold times. -/
def undated (db : Db) : Db :=
  { db with files := db.files.mapVals undatedCols, catalogFailures := ∅, buildMetadata := none }

/-- Why a key failed. -/
def failureText (db : Db) (key : PyStr) : Option PyStr := (db.catalogFailures.lookup key).map Prod.snd

/-- The same rows, up to the times at which they were written. -/
structure SameRows (db db' : Db) : Prop where
  undated : undated db = undated db'
  failures : ∀ k, failureText db k = failureText db' k

theorem SameRows.refl (db : Db) : SameRows db db := ⟨rfl, fun _ => rfl⟩

/-- The same world, up to times and to its clock. -/
structure SameButTimes (w w' : World) : Prop where
  committed : SameRows w.conn.committed w'.conn.committed
  working : SameRows w.conn.working w'.conn.working
  faults : w.conn.faults = w'.conn.faults
  caches : w.caches = w'.caches

theorem SameButTimes.refl (w : World) : SameButTimes w w := ⟨SameRows.refl _, SameRows.refl _, rfl, rfl⟩

theorem SameButTimes.tickClock {w w' : World} (h : SameButTimes w w') : SameButTimes w.tickClock w'.tickClock :=
  ⟨h.committed, h.working, h.faults, h.caches⟩

section Lookups

variable {db db' : Db}

theorem SameRows.customers (h : SameRows db db') : db.customers = db'.customers := by
  have heq := congrArg Db.customers h.undated
  exact heq

theorem SameRows.sites (h : SameRows db db') : db.sites = db'.sites := by
  have heq := congrArg Db.sites h.undated
  exact heq

theorem SameRows.robots (h : SameRows db db') : db.robots = db'.robots := by
  have heq := congrArg Db.robots h.undated
  exact heq

theorem SameRows.sources (h : SameRows db db') : db.sources = db'.sources := by
  have heq := congrArg Db.sources h.undated
  exact heq

theorem SameRows.topicNames (h : SameRows db db') : db.topicNames = db'.topicNames := by
  have heq := congrArg Db.topicNames h.undated
  exact heq

theorem SameRows.schemas (h : SameRows db db') : db.schemas = db'.schemas := by
  have heq := congrArg Db.schemas h.undated
  exact heq

theorem SameRows.topicSets (h : SameRows db db') : db.topicSets = db'.topicSets := by
  have heq := congrArg Db.topicSets h.undated
  exact heq

theorem SameRows.files (h : SameRows db db') : db.files.mapVals undatedCols = db'.files.mapVals undatedCols := by
  have heq := congrArg Db.files h.undated
  exact heq

/-- The row of a key, up to its time. -/
theorem SameRows.find (h : SameRows db db') (key : FileKey) {α : Type} {f : Row FileKey FileCols → α}
    (hf : ∀ r : Row FileKey FileCols, f ⟨r.id, r.key, undatedCols r.val⟩ = f r) :
    (db.files.find key).map f = (db'.files.find key).map f := by
  have hone : ∀ t : Table FileKey FileCols, (t.find key).map f = ((t.mapVals undatedCols).find key).map f := by
    intro t
    rw [Table.find_mapVals, Option.map_map]
    congr 1
    funext r
    exact (hf r).symm
  rw [hone db.files, hone db'.files, h.files]

theorem SameRows.idOf (h : SameRows db db') (key : FileKey) : db.files.idOf key = db'.files.idOf key := h.find key fun _ => rfl

end Lookups

/-! ### Statements -/

section Rules

variable {α : Type}

/-- Both statements fail with one error, or return one value and leave the same rows. -/
inductive SameStep : Except PyErr (α × Db) → Except PyErr (α × Db) → Prop where
  | error (e : PyErr) : SameStep (.error e) (.error e)
  | ok (a : α) {db db' : Db} (h : SameRows db db') : SameStep (.ok (a, db)) (.ok (a, db'))

/-- Taking an entry off the script. -/
theorem SameButTimes.next {w w' : World} (h : SameButTimes w w') :
    w.conn.next.1 = w'.conn.next.1 ∧ SameButTimes { w with conn := w.conn.next.2 } { w' with conn := w'.conn.next.2 } := by
  obtain ⟨⟨committed, working, faults⟩, caches, clock⟩ := w
  obtain ⟨⟨committed', working', faults'⟩, caches', clock'⟩ := w'
  obtain ⟨hcommitted, hworking, hfaults, hcaches⟩ := h
  dsimp only at hcommitted hworking hfaults hcaches
  cases hfaults
  cases faults with
  | nil => exact ⟨rfl, hcommitted, hworking, rfl, hcaches⟩
  | cons fault faults =>
      cases fault with
      | none => exact ⟨rfl, hcommitted, hworking, rfl, hcaches⟩
      | some fault =>
          cases fault with
          | keep => exact ⟨rfl, hcommitted, hworking, rfl, hcaches⟩
          | rollBack => exact ⟨rfl, hcommitted, hcommitted, rfl, hcaches⟩

/-- **A statement** that steps alike runs alike. -/
theorem alike_statement {params params' : List Param} (hbind : bindError params = bindError params')
    {run run' : Db → Except PyErr (α × Db)} (hrun : ∀ db db', SameRows db db' → SameStep (run db) (run' db')) :
    Alike SameButTimes (statement params run) (statement params' run') := by
  intro w w' hw
  obtain ⟨hfault, hnext⟩ := hw.next
  rw [statement, statement]
  rcases hc : w.conn.next with ⟨fault, conn⟩
  rcases hc' : w'.conn.next with ⟨fault', conn'⟩
  rw [hc, hc'] at hfault hnext
  cases hfault
  cases fault with
  | some fault => exact ⟨rfl, hnext⟩
  | none =>
      dsimp only at hnext ⊢
      rw [hbind]
      cases bindError params' with
      | some e => exact ⟨rfl, hnext⟩
      | none =>
          dsimp only
          rcases hstep : run conn.working with e | ⟨a, db⟩
          · have := hrun _ _ hnext.working
            rw [hstep] at this
            cases hstep' : run' conn'.working with
            | error e' =>
                rw [hstep'] at this
                cases this
                exact ⟨rfl, hnext⟩
            | ok out => rw [hstep'] at this; cases this
          · have := hrun _ _ hnext.working
            rw [hstep] at this
            rcases hstep' : run' conn'.working with e' | ⟨a', db'⟩
            · rw [hstep'] at this
              cases this
            · rw [hstep'] at this
              cases this with
              | ok _ hrows => exact ⟨rfl, hnext.committed, hrows, hnext.faults, hnext.caches⟩

theorem alike_query (params : List Param) {read read' : Db → α} (h : ∀ db db', SameRows db db' → read db = read' db') :
    Alike SameButTimes (query params read) (query params read') :=
  alike_statement rfl fun db db' hrows => by
    rw [h db db' hrows]
    exact SameStep.ok _ hrows

theorem alike_queryId (params : List Param) {read : Db → Option ℕ} (h : ∀ db db', SameRows db db' → read db = read db') :
    Alike SameButTimes (queryId params read) (queryId params read) :=
  (alike_query params h).bind fun found => by
    cases found with
    | none => exact alike_raise _
    | some i => exact alike_pure i

theorem alike_execute {params params' : List Param} (hbind : bindError params = bindError params') {run run' : Db → Db}
    (h : ∀ db db', SameRows db db' → SameRows (run db) (run' db')) :
    Alike SameButTimes (execute params run) (execute params' run') :=
  alike_statement hbind fun db db' hrows => SameStep.ok () (h db db' hrows)

/-- What a checked statement leaves, given what it comes to without the times. -/
theorem alike_executeChecked {params params' : List Param} (hbind : bindError params = bindError params')
    {run run' run₀ : Db → Except PyErr Db}
    (hrun : ∀ db, (run db).map undated = run₀ (undated db)) (hrun' : ∀ db, (run' db).map undated = run₀ (undated db))
    (hfail : ∀ db d, run db = .ok d → d.catalogFailures = db.catalogFailures)
    (hfail' : ∀ db d, run' db = .ok d → d.catalogFailures = db.catalogFailures) :
    Alike SameButTimes (executeChecked params run) (executeChecked params' run') := by
  refine alike_statement hbind fun db db' hrows => ?_
  have hsame : (run db).map undated = (run' db').map undated := by rw [hrun, hrun', hrows.undated]
  cases hd : run db with
  | error e =>
      rw [hd] at hsame
      cases hd' : run' db' with
      | error e' =>
          rw [hd'] at hsame
          cases hsame
          exact SameStep.error e
      | ok d' => rw [hd'] at hsame; cases hsame
  | ok d =>
      rw [hd] at hsame
      cases hd' : run' db' with
      | error e' => rw [hd'] at hsame; cases hsame
      | ok d' =>
          rw [hd'] at hsame
          refine SameStep.ok () ⟨Except.ok.inj hsame, fun k => ?_⟩
          rw [failureText, failureText, hfail db d hd, hfail' db' d' hd']
          exact hrows.failures k

theorem alike_commit : Alike SameButTimes commit commit := by
  intro w w' hw
  obtain ⟨hfault, hnext⟩ := hw.next
  rw [commit, commit]
  rcases hc : w.conn.next with ⟨fault, conn⟩
  rcases hc' : w'.conn.next with ⟨fault', conn'⟩
  rw [hc, hc'] at hfault hnext
  cases hfault
  cases fault with
  | some fault => exact ⟨rfl, hnext⟩
  | none => exact ⟨rfl, hnext.working, hnext.working, hnext.faults, hnext.caches⟩

theorem alike_withConn {body body' : Py α} (h : Alike SameButTimes body body') :
    Alike SameButTimes (withConn body) (withConn body') := by
  refine (h.bind fun a => alike_commit.bind fun _ => alike_pure a).attempt.bind fun r => ?_
  cases r with
  | ok a => exact alike_pure a
  | error e =>
      refine Alike.bind (alike_change fun w w' hw => ?_) fun _ => alike_raise e
      exact ⟨hw.committed, hw.committed, hw.faults, hw.caches⟩

theorem alike_nowNs {env : Env} {f f' : ℤ → Py α} (h : ∀ t t', Alike SameButTimes (f (env.timeNs t)) (f' (env.timeNs t'))) :
    Alike SameButTimes (nowNs env >>= f) (nowNs env >>= f') := by
  intro w w' hw
  rw [bind_of_ok (nowNs_apply env w), bind_of_ok (nowNs_apply env w')]
  exact h _ _ _ _ hw.tickClock

end Rules

/-! ### Failures, dimensions, files -/

theorem sameRows_upsertFailure {db db' : Db} (h : SameRows db db') (key text : PyStr) (t t' : ℤ) :
    SameRows (Db.upsertFailure key t text db) (Db.upsertFailure key t' text db') := by
  refine ⟨h.undated, fun k => ?_⟩
  show ((db.catalogFailures.insert key (t, text)).lookup k).map Prod.snd =
    ((db'.catalogFailures.insert key (t', text)).lookup k).map Prod.snd
  by_cases hk : k = key
  · rw [hk, AList.lookup_insert, AList.lookup_insert]
    rfl
  · rw [AList.lookup_insert_ne hk, AList.lookup_insert_ne hk]
    exact h.failures k

theorem sameRows_deleteFailure {db db' : Db} (h : SameRows db db') (key : PyStr) :
    SameRows (Db.deleteFailure key db) (Db.deleteFailure key db') := by
  refine ⟨h.undated, fun k => ?_⟩
  show ((db.catalogFailures.erase key).lookup k).map Prod.snd = ((db'.catalogFailures.erase key).lookup k).map Prod.snd
  by_cases hk : k = key
  · rw [hk, AList.lookup_erase, AList.lookup_erase]
  · rw [AList.lookup_erase_ne hk, AList.lookup_erase_ne hk]
    exact h.failures k

theorem alike_recordFailure (env : Env) (key text : PyStr) :
    Alike SameButTimes (recordFailure env key text) (recordFailure env key text) :=
  alike_nowNs fun t t' => alike_execute (by rw [bindError_failure, bindError_failure]) fun _ _ h =>
    sameRows_upsertFailure h key text _ _

/-- No time is stored in a lookup table, nor does its foreign key look at one. -/
structure TimeFree {κ : Type} [DecidableEq κ] (L : Lookup κ) : Prop where
  table : ∀ db, L.table (undated db) = L.table db
  setTable : ∀ db t, undated (L.setTable db t) = L.setTable (undated db) t
  foreignKey : ∀ db k, L.foreignKey (undated db) k = L.foreignKey db k
  failures : ∀ db t, (L.setTable db t).catalogFailures = db.catalogFailures

theorem timeFree_customer : TimeFree .customer := ⟨fun _ => rfl, fun _ _ => rfl, fun _ _ => rfl, fun _ _ => rfl⟩

theorem timeFree_site : TimeFree .site := ⟨fun _ => rfl, fun _ _ => rfl, fun _ _ => rfl, fun _ _ => rfl⟩

theorem timeFree_robot : TimeFree .robot := ⟨fun _ => rfl, fun _ _ => rfl, fun _ _ => rfl, fun _ _ => rfl⟩

theorem timeFree_source : TimeFree .source := ⟨fun _ => rfl, fun _ _ => rfl, fun _ _ => rfl, fun _ _ => rfl⟩

theorem timeFree_topic : TimeFree .topic := ⟨fun _ => rfl, fun _ _ => rfl, fun _ _ => rfl, fun _ _ => rfl⟩

theorem timeFree_schema : TimeFree .schema := ⟨fun _ => rfl, fun _ _ => rfl, fun _ _ => rfl, fun _ _ => rfl⟩

theorem alike_resolveLookup {κ : Type} [DecidableEq κ] {L : Lookup κ} (hL : TimeFree L) (key : κ) :
    Alike SameButTimes (resolveLookup L key) (resolveLookup L key) := by
  refine alike_look fun w w' hw => ?_
  rw [hw.caches]
  cases L.cache w'.caches key with
  | some i => exact alike_pure i
  | none =>
      have hinsert : ∀ db, (L.insertOrIgnore key db).map undated = L.insertOrIgnore key (undated db) := by
        intro db
        rw [Lookup.insertOrIgnore, Lookup.insertOrIgnore, hL.table, hL.foreignKey]
        split
        · exact congrArg Except.ok (hL.setTable db _)
        · rfl
      have hkept : ∀ db d, L.insertOrIgnore key db = .ok d → d.catalogFailures = db.catalogFailures := by
        intro db d hd
        rw [Lookup.insertOrIgnore] at hd
        split at hd
        · cases hd
          exact hL.failures db _
        · cases hd
      refine (alike_executeChecked rfl hinsert hinsert hkept hkept).bind fun _ => ?_
      refine (alike_queryId (L.params key) fun db db' h => ?_).bind fun i => ?_
      · rw [← hL.table db, h.undated, hL.table]
      · refine Alike.bind (alike_change fun v v' hv => ⟨hv.committed, hv.working, hv.faults, ?_⟩) fun _ => alike_pure i
        show L.remember key i v.caches = L.remember key i v'.caches
        rw [hv.caches]

theorem alike_resolveIds (dims : Dims) : Alike SameButTimes (resolveIds dims) (resolveIds dims) :=
  (alike_resolveLookup timeFree_customer _).bind fun _ => (alike_resolveLookup timeFree_site _).bind fun _ =>
    (alike_resolveLookup timeFree_robot _).bind fun _ => (alike_resolveLookup timeFree_source _).bind fun _ =>
      alike_commit.bind fun _ => alike_pure _

/-- A deletion that looks at ids and keys only. -/
theorem sameRows_deleteFiles {db db' : Db} (h : SameRows db db') {p : Row FileKey FileCols → Bool}
    (hp : ∀ r : Row FileKey FileCols, p ⟨r.id, r.key, undatedCols r.val⟩ = p r) :
    SameRows (db.deleteFiles p) (db'.deleteFiles p) := by
  have hundated : ∀ d : Db, undated (d.deleteFiles p) = (undated d).deleteFiles p := by
    intro d
    have hfiles := Table.mapVals_filter undatedCols d.files (p := fun r => !p r) (q := fun r => !p r)
      fun r => by rw [hp]
    have hgone : ∀ i, ((d.files.mapVals undatedCols).rows.any fun r => decide (r.id = i ∧ p r = true)) =
        d.files.rows.any fun r => decide (r.id = i ∧ p r = true) := by
      intro i
      rw [Table.mapVals, List.any_map]
      congr 1
      funext r
      show decide (r.id = i ∧ p ⟨r.id, r.key, undatedCols r.val⟩ = true) = _
      rw [hp]
    have hremoved : ((d.files.mapVals undatedCols).rows.filter p).map Row.id = (d.files.rows.filter p).map Row.id := by
      have hp' : p ∘ (fun r : Row FileKey FileCols => ⟨r.id, r.key, undatedCols r.val⟩) = p := funext hp
      rw [Table.mapVals, List.filter_map, List.map_map, hp']
      rfl
    simp only [undated, Db.deleteFiles, hfiles, hgone, hremoved]
  exact ⟨by rw [hundated, hundated, h.undated], h.failures⟩

theorem alike_quarantineExisting (env : Env) (ids : Ids) (dims : Dims) (effKey text : PyStr) :
    Alike SameButTimes (quarantineExisting env ids dims effKey text) (quarantineExisting env ids dims effKey text) :=
  (alike_execute rfl fun _ _ h => sameRows_deleteFiles h fun _ => rfl).bind fun _ =>
    (alike_recordFailure env effKey text).bind fun _ => alike_commit

/-! ### The per-file transaction -/

theorem alike_addChannel (byTopic : List (ℕ × (ℕ × ℕ))) (ch : ChannelInfo) :
    Alike SameButTimes (addChannel byTopic ch) (addChannel byTopic ch) :=
  (alike_resolveLookup timeFree_topic _).bind fun _ => (alike_resolveLookup timeFree_schema _).bind fun _ => alike_pure _

/-- A checked statement that neither reads nor writes a time, nor a failure. -/
theorem alike_executeChecked_self (params : List Param) {run : Db → Except PyErr Db}
    (hrun : ∀ db, (run db).map undated = run (undated db))
    (hfail : ∀ db d, run db = .ok d → d.catalogFailures = db.catalogFailures) :
    Alike SameButTimes (executeChecked params run) (executeChecked params run) :=
  alike_executeChecked rfl hrun hrun hfail hfail

theorem alike_insertMember (setId : ℕ) (m : ℕ × ℕ) :
    Alike SameButTimes (executeChecked [] (Db.insertMember setId m.1 m.2))
      (executeChecked [] (Db.insertMember setId m.1 m.2)) := by
  refine alike_executeChecked_self [] (fun db => ?_) fun db d hd => ?_
  · show (Db.insertMember setId m.1 m.2 db).map undated = Db.insertMember setId m.1 m.2 (undated db)
    rw [Db.insertMember, apply_ite (Except.map undated), apply_ite (Except.map undated)]
    rfl
  · rw [Db.insertMember] at hd
    split at hd
    · cases hd
    · split at hd
      · cases hd
        rfl
      · cases hd

theorem alike_rememberTopicSet (fingerprint : PyStr) (setId : ℕ) :
    Alike SameButTimes (rememberTopicSet fingerprint setId) (rememberTopicSet fingerprint setId) :=
  alike_change fun w w' hw => ⟨hw.committed, hw.working, hw.faults, by
    simp only [World.setCaches_caches, hw.caches]⟩

theorem alike_resolveTopicSet (fingerprint : PyStr) (members : List (ℕ × ℕ)) :
    Alike SameButTimes (resolveTopicSet fingerprint members) (resolveTopicSet fingerprint members) := by
  have hidOf : ∀ db db' : Db, SameRows db db' → db.topicSets.idOf fingerprint = db'.topicSets.idOf fingerprint :=
    fun db db' h => by rw [h.topicSets]
  have hinsert : Alike SameButTimes (executeChecked [.text fingerprint] (insertTopicSet fingerprint))
      (executeChecked [.text fingerprint] (insertTopicSet fingerprint)) := by
    refine alike_executeChecked_self _ (fun db => ?_) fun db d hd => ?_
    · rw [insertTopicSet, apply_ite (Except.map undated)]
      rfl
    · rw [insertTopicSet] at hd
      split at hd
      · cases hd
      · cases hd
        rfl
  have hstore : Alike SameButTimes
      (executeChecked [.text fingerprint] (insertTopicSet fingerprint) >>= fun _ =>
        queryId [.text fingerprint] (fun db => db.topicSets.idOf fingerprint) >>= fun setId =>
          each (fun m => executeChecked [] (Db.insertMember setId m.1 m.2)) members >>= fun _ =>
            rememberTopicSet fingerprint setId >>= fun _ => pure setId)
      (executeChecked [.text fingerprint] (insertTopicSet fingerprint) >>= fun _ =>
        queryId [.text fingerprint] (fun db => db.topicSets.idOf fingerprint) >>= fun setId =>
          each (fun m => executeChecked [] (Db.insertMember setId m.1 m.2)) members >>= fun _ =>
            rememberTopicSet fingerprint setId >>= fun _ => pure setId) :=
    hinsert.bind fun _ => (alike_queryId _ hidOf).bind fun setId =>
      (Alike.each (fun m => alike_insertMember setId m) members).bind fun _ =>
        (alike_rememberTopicSet fingerprint setId).bind fun _ => alike_pure _
  refine alike_look fun w w' hw => ?_
  rw [hw.caches]
  cases w'.caches.topicSet fingerprint with
  | some i => exact alike_pure i
  | none =>
      refine (alike_query _ hidOf).bind fun found => ?_
      cases found with
      | some i => exact (alike_rememberTopicSet fingerprint i).bind fun _ => alike_pure i
      | none =>
          by_cases hsorted : members ≠ sortPairs members
          · simp only [if_pos hsorted]
            exact (alike_raise _).bind fun _ => hstore
          · simp only [if_neg hsorted]
            exact hstore

/-- The upserted row, without its time. -/
theorem undated_upsertFile (key : FileKey) (cols : FileCols) (db : Db) :
    (Db.upsertFile key cols db).map undated = Db.upsertFile key (undatedCols cols) (undated db) := by
  have hfiles := Table.mapVals_upsert undatedCols db.files key cols
  have hstored : (Except.ok { db with files := db.files.upsert key cols } : Except PyErr Db).map undated =
      .ok { undated db with files := (undated db).files.upsert key (undatedCols cols) } := by
    simp only [Except.map, undated, hfiles]
  rw [Db.upsertFile, apply_ite (Except.map undated), hstored]
  rfl

theorem alike_upsertFile (env : Env) (key : FileKey) (written : Written) (setId : ℕ) (blob : Bytes) (t t' : ℕ) :
    Alike SameButTimes
      (executeChecked (fileParams written (env.timeNs t)) (Db.upsertFile key (fileCols written (env.timeNs t) setId blob)))
      (executeChecked (fileParams written (env.timeNs t'))
        (Db.upsertFile key (fileCols written (env.timeNs t') setId blob))) := by
  have hkept : ∀ now db d, Db.upsertFile key (fileCols written now setId blob) db = .ok d →
      d.catalogFailures = db.catalogFailures := by
    intro now db d hd
    rw [Db.upsertFile] at hd
    split at hd
    · cases hd
      rfl
    · cases hd
  exact alike_executeChecked (by rw [bindError_fileParams, bindError_fileParams]) (undated_upsertFile key _)
    (undated_upsertFile key _) (hkept _) (hkept _)

theorem alike_insertEmbedded (fileId : ℕ) (kv : PyStr × PyStr) :
    Alike SameButTimes (executeChecked [.text kv.1, .text kv.2] (Db.insertEmbedded fileId kv.1 kv.2))
      (executeChecked [.text kv.1, .text kv.2] (Db.insertEmbedded fileId kv.1 kv.2)) := by
  refine alike_executeChecked_self _ (fun db => ?_) fun db d hd => ?_
  · have hrefs : Db.references (db.files.mapVals undatedCols) fileId = Db.references db.files fileId := by
      rw [Db.references, Db.references, Table.get_mapVals, Option.isSome_map]
    rw [Db.insertEmbedded, apply_ite (Except.map undated), apply_ite (Except.map undated), ← hrefs]
    rfl
  · rw [Db.insertEmbedded] at hd
    split at hd
    · cases hd
    · split at hd
      · cases hd
        rfl
      · cases hd

theorem alike_storeFile (env : Env) (ids : Ids) (written : Written) (setId : ℕ) (counts : List ℕ) :
    Alike SameButTimes (storeFile env ids written setId counts) (storeFile env ids written setId counts) := by
  refine alike_nowNs fun t t' => ?_
  refine (alike_upsertFile env _ written setId _ t t').bind fun _ => ?_
  refine (alike_queryId _ fun db db' h => h.idOf _).bind fun fileId => ?_
  refine Alike.bind (alike_execute rfl fun db db' h => ⟨?_, h.failures⟩) fun _ => ?_
  · have heq := congrArg (fun d : Db => { d with tagsEmbedded := keep (fun k => k.1 ≠ fileId) d.tagsEmbedded }) h.undated
    exact heq
  refine (Alike.each (alike_insertEmbedded fileId) _).bind fun _ => ?_
  refine Alike.bind (alike_execute rfl fun db db' h => ⟨?_, h.failures⟩) fun _ => ?_
  · have hset : ∀ d : Db, undated { d with
        files := d.files.setVal fileId fun cols => { cols with hasError := hasErrorOf written.summary } } =
        { undated d with
          files := (undated d).files.setVal fileId fun cols => { cols with hasError := hasErrorOf written.summary } } := by
      intro d
      have hfiles : (d.files.setVal fileId fun cols => { cols with hasError := hasErrorOf written.summary }).mapVals
          undatedCols = (d.files.mapVals undatedCols).setVal fileId fun cols =>
            { cols with hasError := hasErrorOf written.summary } :=
        Table.mapVals_setVal undatedCols d.files fileId fun _ => rfl
      simp only [undated, hfiles]
    rw [hset, hset, h.undated]
  · exact alike_execute rfl fun db db' h => sameRows_deleteFailure h written.effKey

theorem alike_fileTransaction (env : Env) (ids : Ids) (written : Written) :
    Alike SameButTimes (fileTransaction env ids written) (fileTransaction env ids written) := by
  refine (Alike.foldEach alike_addChannel _ _).bind fun byTopic => (alike_resolveTopicSet _ _).bind fun setId => ?_
  dsimp only
  split
  · exact (alike_raise _).bind fun _ => alike_storeFile env ids written setId _
  · exact alike_storeFile env ids written setId _

theorem alike_loadCaches : Alike SameButTimes loadCaches loadCaches :=
  (alike_query [] fun _ _ h => by rw [h.customers]).bind fun _ =>
    (alike_query [] fun _ _ h => by rw [h.sites]).bind fun _ =>
      (alike_query [] fun _ _ h => by rw [h.robots]).bind fun _ =>
        (alike_query [] fun _ _ h => by rw [h.sources]).bind fun _ =>
          (alike_query [] fun _ _ h => by rw [h.topicNames]).bind fun _ =>
            (alike_query [] fun _ _ h => by rw [h.schemas]).bind fun _ =>
              (alike_query [] fun _ _ h => by rw [h.topicSets]).bind fun _ => alike_pure _

/-- **`_write_file_row`**, at any two moments. -/
theorem alike_writeFileRow (env : Env) (ids : Ids) (written : Written) :
    Alike SameButTimes (writeFileRow env ids written) (writeFileRow env ids written) := by
  refine (alike_withConn (alike_fileTransaction env ids written)).attempt.bind fun r => ?_
  cases r with
  | ok _ => exact alike_pure _
  | error e =>
      refine alike_loadCaches.bind fun caches => ?_
      refine Alike.bind (alike_change fun w w' hw => ⟨hw.committed, hw.working, hw.faults, rfl⟩) fun _ => ?_
      exact (alike_quarantineExisting env ids written.dims written.effKey e.errorText).bind fun _ => alike_pure _

end McapCatalog.Builder
