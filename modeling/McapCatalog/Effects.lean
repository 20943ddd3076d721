import McapCatalog.Faults
import McapCatalog.Runs

/-!
# What a call keeps, whatever fails

A property of what is committed, of what the connection sees and of the caches that every statement of a call keeps is
kept by the call: under any script of failures, and whichever way it exits.

* `Tame`, `Writes`, `Closed` — properties that the statements keep: those that leave the lookup tables alone and write no
  file, those of the per-file transaction, and all of them, with what they may write into a `files` row;
* `Meets`, `Keeps` — a call keeps the property, and what it returns has another one; one rule for each effect;
* `keeps_quarantineExisting`, `keeps_deleteByKey`, `keeps_updateTags`, ... — the calls, each from its statements;
* `keeps_catalogObject`, `keeps_fullReconcile` — **the two paths, with what they write coming from their source.**
-/

namespace McapCatalog.Builder

open McapCatalog.PyText McapCatalog.PyError McapCatalog.KeyParse McapCatalog.McapSummary McapCatalog.Varint
open McapCatalog.Storage McapCatalog.Tables McapCatalog.RowidTable McapCatalog.KeyedRows
open McapCatalog.Connection McapCatalog.CatalogDb McapCatalog.Reconcile
open McapCatalog.SurvivingState McapCatalog.SurvivingState.Comp

/-- A property of the committed database, of the connection's view and of the caches. -/
abbrev Property : Type := Db → Db → Caches → Prop

/-- A rollback keeps it. -/
def RollsBack (I : Property) : Prop := ∀ db view caches, I db view caches → I db db caches

/-- Every statement keeps it that leaves the lookup tables alone and writes no file. -/
structure Tame (I : Property) : Prop where
  commit : ∀ {db view caches}, I db view caches → I view view caches
  rollBack : RollsBack I
  delete : ∀ p {db view caches}, I db view caches → I db (view.deleteFiles p) caches
  failures : ∀ failures build {db view caches}, I db view caches →
    I db { view with catalogFailures := failures, buildMetadata := build } caches
  override : ∀ {i key value now db view view' caches}, Db.upsertOverride i key value now view = .ok view' →
    I db view caches → I db view' caches
  eraseOverride : ∀ k {db view caches}, I db view caches →
    I db { view with tagsOverride := view.tagsOverride.erase k } caches

/-- A change outside `files` under which the dimension tables only grow. -/
structure Beside (db db' : Db) : Prop extends NamesGrow db db' where
  files : db'.files = db.files
  removed : db'.removed = db.removed

theorem Beside.refl (db : Db) : Beside db db := ⟨NamesGrow.refl db, rfl, rfl⟩

theorem Beside.of_eq {db db' : Db} (hfiles : db'.files = db.files) (hremoved : db'.removed = db.removed)
    (hcustomers : db'.customers = db.customers) (hsites : db'.sites = db.sites) (hrobots : db'.robots = db.robots)
    (hsources : db'.sources = db.sources) : Beside db db' :=
  ⟨.of_eq hcustomers hsites hrobots hsources, hfiles, hremoved⟩

/-- Every statement of the per-file transaction keeps it, if what it writes into a `files` row is in `S`. -/
structure Writes (I : Property) (S : Set Written) : Prop where
  rollBack : RollsBack I
  beside : ∀ {db view view' caches}, I db view caches → Beside view view' → I db view' caches
  upsert : ∀ {key written now setId blob db view view' caches}, written ∈ S →
    Db.upsertFile key (fileCols written now setId blob) view = .ok view' → I db view caches → I db view' caches
  hasError : ∀ i n {db view caches}, I db view caches →
    I db { view with files := view.files.setVal i fun cols => { cols with hasError := n } } caches
  setCaches : ∀ {db view caches} caches', I db view caches → I db view caches'

/-- A change outside `files` and the dimension tables. -/
structure Topical (db db' : Db) : Prop where
  files : db'.files = db.files
  removed : db'.removed = db.removed
  customers : db'.customers = db.customers
  sites : db'.sites = db.sites
  robots : db'.robots = db.robots
  sources : db'.sources = db.sources

theorem Topical.beside {db db' : Db} (h : Topical db db') : Beside db db' :=
  .of_eq h.files h.removed h.customers h.sites h.robots h.sources

/-- Only the topic tables differ. -/
structure OnlyTopics (db db' : Db) : Prop where
  only : ∃ names schemas sets members, db' =
    { db with topicNames := names, schemas := schemas, topicSets := sets, topicSetMembers := members }

theorem OnlyTopics.refl (db : Db) : OnlyTopics db db := ⟨_, _, _, _, rfl⟩

theorem OnlyTopics.trans {a b c : Db} (h : OnlyTopics a b) (h' : OnlyTopics b c) : OnlyTopics a c := by
  obtain ⟨n, s, t, m, rfl⟩ := h
  obtain ⟨n', s', t', m', rfl⟩ := h'
  exact ⟨n', s', t', m', rfl⟩

theorem OnlyTopics.topical {db db' : Db} (h : OnlyTopics db db') : Topical db db' := by
  obtain ⟨n, s, t, m, rfl⟩ := h
  exact ⟨rfl, rfl, rfl, rfl, rfl, rfl⟩

/-- Every statement keeps it that stores the topics of a file. -/
structure TopicWrites (I : Property) : Prop where
  rollBack : RollsBack I
  topics : ∀ {db view view' caches}, I db view caches → OnlyTopics view view' → I db view' caches
  remember : ∀ {db view caches} topic schema topicSet, I db view caches →
    I db view { caches with topic := topic, schema := schema, topicSet := topicSet }

/-- Every statement keeps it of the transaction that writes one file under one key. -/
structure Transacts (I : Property) (key : FileKey) (written : Written) : Prop where
  rollBack : RollsBack I
  topical : ∀ {db view view' caches}, I db view caches → Topical view view' → I db view' caches
  upsert : ∀ {now setId blob db view view' caches}, bindError (fileParams written now) = none →
    Db.upsertFile key (fileCols written now setId blob) view = .ok view' → I db view caches → I db view' caches
  hasError : ∀ i n {db view caches}, I db view caches →
    I db { view with files := view.files.setVal i fun cols => { cols with hasError := n } } caches
  remember : ∀ {db view caches} topic schema topicSet, I db view caches →
    I db view { caches with topic := topic, schema := schema, topicSet := topicSet }

theorem Transacts.topicWrites {I : Property} {key : FileKey} {written : Written} (h : Transacts I key written) :
    TopicWrites I where
  rollBack := h.rollBack
  topics hview honly := h.topical hview honly.topical
  remember := h.remember

theorem Writes.transacts {I : Property} {S : Set Written} (h : Writes I S) {written : Written} (hw : written ∈ S)
    (key : FileKey) : Transacts I key written where
  rollBack := h.rollBack
  topical hview htopical := h.beside hview htopical.beside
  upsert _ hrun hview := h.upsert hw hrun hview
  hasError := h.hasError
  remember _ _ _ hview := h.setCaches _ hview

/-- Every statement keeps it, if what it writes into a `files` row is in `S`. -/
structure Closed (I : Property) (S : Set Written) : Prop extends Writes I S where
  commit : ∀ {db view caches}, I db view caches → I view view caches
  delete : ∀ p {db view caches}, I db view caches → I db (view.deleteFiles p) caches

theorem Closed.tame {I : Property} {S : Set Written} (h : Closed I S) : Tame I where
  commit := h.commit
  rollBack := h.rollBack
  delete := h.delete
  failures _ _ _ _ _ hview := h.beside hview (.of_eq rfl rfl rfl rfl rfl rfl)
  override hrun hview := by
    rw [Db.upsertOverride] at hrun
    split at hrun
    · cases hrun
      exact h.beside hview (.of_eq rfl rfl rfl rfl rfl rfl)
    · cases hrun
  eraseOverride _ _ _ _ hview := h.beside hview (.of_eq rfl rfl rfl rfl rfl rfl)

/-- The world has the property, at the moment `lo` or later. -/
structure Meets (I : Property) (lo : ℕ) (w : World) : Prop where
  inv : I w.conn.committed w.conn.working w.caches
  since : lo ≤ w.clock

/-- The call keeps the property under any script of failures, and what it returns has the property `Q`. -/
def Keeps {α : Type} (I : Property) (lo : ℕ) (m : Py α) (Q : α → Prop) : Prop :=
  Triple (Meets I lo) m (fun a w => Q a ∧ Meets I lo w) (fun _ w => Meets I lo w)

/-- The statements to come fail as the script says. -/
def scripted (w : World) (script : List (Option Fault)) : World := { w with conn := { w.conn with faults := script } }

theorem scripted_of_quiet {w : World} (h : w.Quiet) : scripted w [] = w := by
  rw [scripted, ← h]

section Rules

variable {α β : Type} {I : Property} {lo : ℕ} {Q : α → Prop} {R : β → Prop}

theorem Meets.mono {w : World} {lo' : ℕ} (h : Meets I lo w) (hlo : lo' ≤ lo) : Meets I lo' w := ⟨h.inv, hlo.trans h.since⟩

/-- What a call leaves, whichever way it exits. -/
theorem Keeps.after {m : Py α} (hm : Keeps I lo m Q) {w : World} (hw : Meets I lo w) : Meets I lo (m w).2 := by
  have h := hm w hw
  rcases hmw : m w with ⟨r, w'⟩
  rw [hmw] at h
  cases r with
  | ok a => exact h.2
  | error e => exact h

theorem keeps_pure {a : α} (h : Q a) : Keeps I lo (pure a) Q := fun _ hw => ⟨h, hw⟩

theorem keeps_raise (e : PyErr) : Keeps I lo (raise e : Py α) Q := fun _ hw => hw

theorem Keeps.bind {m : Py α} {f : α → Py β} (hm : Keeps I lo m Q) (hf : ∀ a, Q a → Keeps I lo (f a) R) :
    Keeps I lo (m >>= f) R :=
  Triple.bind hm fun a _ hw => hf a hw.1 _ hw.2

theorem Keeps.attempt {m : Py α} (hm : Keeps I lo m fun _ => True) : Keeps I lo (Comp.attempt m) fun _ => True := by
  intro w hw
  rw [attempt_apply]
  exact ⟨trivial, hm.after hw⟩

/-- A reading of the clock or of the source: what follows happens later. -/
theorem keeps_tickThen {f : ℕ → Py α} (hf : ∀ t, lo ≤ t → Keeps I t (f t) Q) : Keeps I lo (tick >>= f) Q := by
  intro w hw
  rw [bind_of_ok (tick_apply w)]
  have h := hf w.clock hw.since w.tickClock ⟨hw.inv, Nat.le_succ _⟩
  exact h.mono (fun _ _ ha => ⟨ha.1, ha.2.mono hw.since⟩) fun _ _ he => he.mono hw.since

theorem keeps_tick : Keeps I lo tick fun _ => True := fun _ hw => ⟨trivial, hw.inv, hw.since.trans (Nat.le_succ _)⟩

theorem keeps_askThen {answer : ℕ → Except PyErr β} {f : β → Py α}
    (hf : ∀ t b, lo ≤ t → answer t = .ok b → Keeps I t (f b) Q) : Keeps I lo (ask answer >>= f) Q := by
  rw [ask, bind_bind]
  refine keeps_tickThen fun t ht => ?_
  cases hanswer : answer t with
  | ok b => exact hf t b ht hanswer
  | error e => exact keeps_raise e

theorem keeps_look : Keeps I lo look fun _ => True := fun _ hw => ⟨trivial, hw⟩

theorem Keeps.foldEach {f : β → α → Py β} (h : ∀ b a, R b → Q a → Keeps I lo (f b a) R) :
    ∀ (as : List α) (b : β), (∀ a ∈ as, Q a) → R b → Keeps I lo (Comp.foldEach f b as) R
  | [], _, _, hb => keeps_pure hb
  | a :: as, b, has, hb => by
      rw [foldEach_cons]
      exact (h b a hb (has a List.mem_cons_self)).bind fun b' hb' =>
        Keeps.foldEach h as b' (fun a' ha' => has a' (List.mem_cons_of_mem _ ha')) hb'

theorem Keeps.each {f : α → Py Unit} (h : ∀ a, Keeps I lo (f a) fun _ => True) :
    ∀ as : List α, Keeps I lo (Comp.each f as) fun _ => True
  | [] => keeps_pure trivial
  | a :: as => (h a).bind fun _ _ => Keeps.each h as

/-! ### Statements -/

/-- Taking an entry off the script at most rolls back. -/
theorem Meets.next (hroll : RollsBack I) {w : World} (hw : Meets I lo w) :
    Meets I lo { w with conn := w.conn.next.2 } := by
  obtain ⟨hcommitted, hworking⟩ := untouched_next w.conn
  refine ⟨?_, hw.since⟩
  show I w.conn.next.2.committed w.conn.next.2.working w.caches
  rw [hcommitted]
  cases hworking with
  | inl h => rw [h]; exact hw.inv
  | inr h => rw [h]; exact hroll _ _ _ hw.inv

/-- **A statement** keeps what it keeps on a connection that works, once its parameters are bound. -/
theorem keeps_statementBound (hroll : RollsBack I) (params : List Param) {run : Db → Except PyErr (α × Db)}
    (h : ∀ {db view a view' caches}, bindError params = none → run view = .ok (a, view') → I db view caches →
      I db view' caches) :
    Keeps I lo (statement params run) fun _ => True := by
  intro w hw
  have hnext := hw.next hroll
  rw [statement]
  rcases hc : w.conn.next with ⟨fault, conn⟩
  rw [hc] at hnext
  cases fault with
  | some _ => exact hnext
  | none =>
      simp only
      cases hbind : bindError params with
      | some e => exact hnext
      | none =>
          simp only
          rcases hrun : run conn.working with e | ⟨a, db⟩
          · exact hnext
          · exact ⟨trivial, h hbind hrun hnext.inv, hnext.since⟩

theorem keeps_statement (hroll : RollsBack I) (params : List Param)
    {run : Db → Except PyErr (α × Db)}
    (h : ∀ {db view a view' caches}, run view = .ok (a, view') → I db view caches → I db view' caches) :
    Keeps I lo (statement params run) fun _ => True :=
  keeps_statementBound hroll params fun _ => h

theorem keeps_execute (hroll : RollsBack I) (params : List Param)
    {run : Db → Db} (h : ∀ {db view caches}, I db view caches → I db (run view) caches) :
    Keeps I lo (execute params run) fun _ => True :=
  keeps_statement hroll params fun hrun hview => by
    cases hrun
    exact h hview

theorem keeps_executeBound (hroll : RollsBack I) (params : List Param) {run : Db → Except PyErr Db}
    (h : ∀ {db view view' caches}, bindError params = none → run view = .ok view' → I db view caches →
      I db view' caches) :
    Keeps I lo (executeChecked params run) fun _ => True := by
  refine keeps_statementBound hroll params fun {db view a view' caches} hbind hrun hview => ?_
  rcases hview' : run view with e | out
  · rw [hview'] at hrun
    cases hrun
  · rw [hview'] at hrun
    cases hrun
    exact h hbind hview' hview

theorem keeps_executeChecked (hroll : RollsBack I) (params : List Param)
    {run : Db → Except PyErr Db}
    (h : ∀ {db view view' caches}, run view = .ok view' → I db view caches → I db view' caches) :
    Keeps I lo (executeChecked params run) fun _ => True :=
  keeps_executeBound hroll params fun _ => h

theorem keeps_query (hroll : RollsBack I) (params : List Param)
    (read : Db → α) : Keeps I lo (query params read) fun _ => True :=
  keeps_statement hroll params fun hrun hview => by
    cases hrun
    exact hview

theorem keeps_queryId (hroll : RollsBack I) (params : List Param)
    (read : Db → Option ℕ) : Keeps I lo (queryId params read) fun _ => True :=
  (keeps_query hroll params read).bind fun found _ => by
    cases found with
    | none => exact keeps_raise _
    | some i => exact keeps_pure trivial

/-- What a statement like that returns has what the property says of the row it finds. -/
theorem keeps_queryIdOf (hroll : RollsBack I) (params : List Param) {read : Db → Option ℕ} {R : ℕ → Prop}
    (h : ∀ {db view caches i}, I db view caches → read view = some i → R i) : Keeps I lo (queryId params read) R := by
  intro w hw
  have hafter := (keeps_queryId hroll params read).after hw
  rcases hrun : queryId params read w with ⟨out, w'⟩
  rw [hrun] at hafter
  cases out with
  | error e => exact hafter
  | ok i =>
      obtain ⟨found, w₁, hquery, hfound⟩ := bind_eq_ok hrun
      obtain ⟨rfl, _⟩ := query_of_ok hquery
      refine ⟨h hw.inv ?_, hafter⟩
      cases hread : read w.conn.working with
      | none => rw [hread] at hfound; cases hfound
      | some j => rw [hread] at hfound; cases hfound; rfl

theorem keeps_commitOf (hroll : RollsBack I) (h : ∀ {db view caches}, I db view caches → I view view caches) :
    Keeps I lo commit fun _ => True := by
  intro w hw
  have hnext := hw.next hroll
  rw [commit]
  rcases hc : w.conn.next with ⟨fault, conn⟩
  rw [hc] at hnext
  cases fault with
  | some _ => exact hnext
  | none => exact ⟨trivial, h hnext.inv, hnext.since⟩

theorem keeps_commit (hI : Tame I) : Keeps I lo commit fun _ => True := keeps_commitOf hI.rollBack hI.commit

theorem keeps_withConnOf (hroll : RollsBack I) (hcommit : ∀ {db view caches}, I db view caches → I view view caches)
    {body : Py α} (h : Keeps I lo body fun _ => True) : Keeps I lo (withConn body) fun _ => True := by
  refine (h.bind fun a _ => (keeps_commitOf hroll hcommit).bind fun _ _ => keeps_pure trivial).attempt.bind fun r _ => ?_
  cases r with
  | ok a => exact keeps_pure trivial
  | error e =>
      refine Keeps.bind (Q := fun _ => True) (fun w hw => ?_) fun _ _ => keeps_raise e
      exact ⟨trivial, hroll _ _ _ hw.inv, hw.since⟩

theorem keeps_withConn (hI : Tame I) {body : Py α} (h : Keeps I lo body fun _ => True) :
    Keeps I lo (withConn body) fun _ => True :=
  keeps_withConnOf hI.rollBack hI.commit h

end Rules

/-! ### Calls that leave the lookup tables alone -/

section Tame

variable {env : Env} {I : Property} {lo : ℕ}

theorem keeps_recordFailure (hI : Tame I) (key text : PyStr) : Keeps I lo (recordFailure env key text) fun _ => True :=
  (keeps_tick.bind fun _ _ => keeps_pure (Q := fun _ => True) trivial).bind fun _ _ =>
    keeps_execute hI.rollBack _ fun hview => hI.failures _ _ hview

theorem keeps_recordBuild (hI : Tame I) (scanned failed : ℕ) (outcome : PyStr) :
    Keeps I lo (recordBuild env scanned failed outcome) fun _ => True :=
  (keeps_tick.bind fun _ _ => keeps_pure (Q := fun _ => True) trivial).bind fun _ _ =>
    Keeps.bind (keeps_execute hI.rollBack _ fun hview => hI.failures _ _ hview) fun _ _ => keeps_commit hI

/-- A failure recorded and committed. -/
theorem keeps_failed (hI : Tame I) {α : Type} (key text : PyStr) {a : α} {Q : α → Prop} (ha : Q a) :
    Keeps I lo (do recordFailure env key text; commit; pure a) Q :=
  (keeps_recordFailure hI _ _).bind fun _ _ => (keeps_commit hI).bind fun _ _ => keeps_pure ha

theorem keeps_deleteFiles (hI : Tame I) (params : List Param) (p : Row FileKey FileCols → Bool) :
    Keeps I lo (execute params (Db.deleteFiles p)) fun _ => True :=
  keeps_execute hI.rollBack _ fun hview => hI.delete p hview

theorem keeps_quarantineExisting (hI : Tame I) (ids : Ids) (dims : Dims) (effKey text : PyStr) :
    Keeps I lo (quarantineExisting env ids dims effKey text) fun _ => True :=
  (keeps_deleteFiles hI _ _).bind fun _ _ => (keeps_recordFailure hI _ _).bind fun _ _ => keeps_commit hI

theorem keeps_deleteByKey (hI : Tame I) (key : PyStr) : Keeps I lo (deleteByKey key) fun _ => True := by
  rw [deleteByKey]
  cases parseHiveKey key with
  | none => exact keeps_pure trivial
  | some dims =>
      refine keeps_look.bind fun w _ => ?_
      cases cachedIds w.caches dims with
      | none => exact keeps_pure trivial
      | some ids =>
          refine Keeps.bind (keeps_statement hI.rollBack _ fun hrun hview => ?_) fun _ _ =>
            Keeps.bind (keeps_execute hI.rollBack _ fun hview => hI.failures _ _ hview) fun _ _ =>
              (keeps_commit hI).bind fun _ _ => keeps_pure trivial
          cases hrun
          exact hI.delete _ hview

theorem keeps_sweepRow (hI : Tame I) (isPresent : FileKey → Bool) (tally : Tally) (row : Row FileKey FileCols) :
    Keeps I lo (sweepRow isPresent tally row) fun _ => True := by
  rw [sweepRow]
  split
  · exact keeps_pure trivial
  · exact (keeps_deleteFiles hI _ _).bind fun _ _ => keeps_pure trivial

theorem keeps_updateTags (hI : Tame I) (fileId : ℕ) (setKv : List (PyStr × PyStr)) (unsetKeys : List PyStr) :
    Keeps I lo (updateTags env fileId setKv unsetKeys) fun _ => True := by
  refine (keeps_tick.bind fun _ _ => keeps_pure (Q := fun _ => True) trivial).bind fun now _ => keeps_withConn hI ?_
  refine Keeps.bind (Keeps.each (fun kv => keeps_executeChecked hI.rollBack _ hI.override) _) fun _ _ =>
    Keeps.each (fun key => ?_) _
  refine (keeps_query hI.rollBack _ _).bind fun embedded _ => ?_
  split
  · exact keeps_executeChecked hI.rollBack _ hI.override
  · exact keeps_execute hI.rollBack _ fun hview => hI.eraseOverride _ hview

theorem keeps_applyUnparseable (hI : Tame I) (ex : Extract) : Keeps I lo (applyUnparseable env ex) fun _ => True :=
  keeps_failed hI _ _ trivial

end Tame

/-! ### Calls that write files -/

section Closed

variable {env : Env} {I : Property} {S : Set Written} {lo : ℕ}

/-- The inserts into a lookup table keep it. -/
def Inserts {κ : Type} [DecidableEq κ] (I : Property) (L : Lookup κ) : Prop :=
  ∀ key db view view' caches, bindError (L.params key) = none → L.insertOrIgnore key view = .ok view' →
    I db view caches → I db view' caches

/-- A resolver inserts a row and stores an entry. -/
theorem keeps_resolving {κ : Type} [DecidableEq κ] (L : Lookup κ) (hroll : RollsBack I) (hinsert : Inserts I L)
    (hremember : ∀ {db view caches} cache, I db view caches → I db view (L.setCache caches cache)) (key : κ) :
    Keeps I lo (resolveLookup L key) fun _ => True := by
  refine keeps_look.bind fun w _ => ?_
  cases L.cache w.caches key with
  | some i => exact keeps_pure trivial
  | none =>
      exact Keeps.bind (keeps_executeBound hroll _ (hinsert _ _ _ _ _)) fun _ _ => (keeps_queryId hroll _ _).bind fun i _ =>
        Keeps.bind (Q := fun _ => True) (fun w hw => ⟨trivial, hremember _ hw.inv, hw.since⟩)
          fun _ _ => keeps_pure trivial

theorem inserts_of_extends {κ : Type} [DecidableEq κ] {L : Lookup κ}
    (h : ∀ {db view t caches}, (L.table view).Extends t → I db view caches → I db (L.setTable view t) caches) : Inserts I L := by
  intro key db view view' caches _ hrun hview
  rw [Lookup.insertOrIgnore] at hrun
  split at hrun
  · cases hrun
    exact h Table.extends_insertOrIgnore hview
  · cases hrun

theorem keeps_resolve {κ : Type} [DecidableEq κ] (L : Lookup κ) (hroll : RollsBack I)
    (hinsert : ∀ {db view t caches}, (L.table view).Extends t → I db view caches → I db (L.setTable view t) caches)
    (hremember : ∀ {db view caches} cache, I db view caches → I db view (L.setCache caches cache)) (key : κ) :
    Keeps I lo (resolveLookup L key) fun _ => True :=
  keeps_resolving L hroll (inserts_of_extends hinsert) hremember key

theorem keeps_resolveLookup (hI : Writes I S) {κ : Type} [DecidableEq κ] (L : Lookup κ)
    (hL : ∀ {db t}, (L.table db).Extends t → Beside db (L.setTable db t)) (key : κ) :
    Keeps I lo (resolveLookup L key) fun _ => True :=
  keeps_resolve L hI.rollBack (fun hext hview => hI.beside hview (hL hext)) (fun _ hview => hI.setCaches _ hview) key

theorem beside_customer {db : Db} {t : Table PyStr Unit} (h : db.customers.Extends t) :
    Beside db (Lookup.customer.setTable db t) :=
  { Beside.refl db with customers := h }

theorem beside_site {db : Db} {t : Table (ℕ × PyStr) Unit} (h : db.sites.Extends t) :
    Beside db (Lookup.site.setTable db t) :=
  { Beside.refl db with sites := h }

theorem beside_robot {db : Db} {t : Table (ℕ × PyStr) Unit} (h : db.robots.Extends t) :
    Beside db (Lookup.robot.setTable db t) :=
  { Beside.refl db with robots := h }

theorem beside_source {db : Db} {t : Table PyStr Unit} (h : db.sources.Extends t) :
    Beside db (Lookup.source.setTable db t) :=
  { Beside.refl db with sources := h }

theorem keeps_resolveIds (hI : Closed I S) (dims : Dims) : Keeps I lo (resolveIds dims) fun _ => True :=
  (keeps_resolveLookup hI.toWrites _ beside_customer _).bind fun _ _ =>
    (keeps_resolveLookup hI.toWrites _ beside_site _).bind fun _ _ =>
      (keeps_resolveLookup hI.toWrites _ beside_robot _).bind fun _ _ =>
        (keeps_resolveLookup hI.toWrites _ beside_source _).bind fun _ _ =>
          (keeps_commit hI.tame).bind fun _ _ => keeps_pure trivial

section Transaction

variable {key : FileKey} {written : Written}

theorem keeps_topics (hI : TopicWrites I) (params : List Param) {run : Db → Except PyErr Db}
    (h : ∀ {view view'}, run view = .ok view' → OnlyTopics view view') :
    Keeps I lo (executeChecked params run) fun _ => True :=
  keeps_executeChecked hI.rollBack _ fun hrun hview => hI.topics hview (h hrun)

theorem keeps_resolveTopicSet (hI : TopicWrites I) (fingerprint : PyStr) (members : List (ℕ × ℕ)) :
    Keeps I lo (resolveTopicSet fingerprint members) fun _ => True := by
  have hremember : ∀ i, Keeps I lo (rememberTopicSet fingerprint i) fun _ => True :=
    fun i w hw => ⟨trivial, hI.remember _ _ _ hw.inv, hw.since⟩
  have hinsert : ∀ setId (m : ℕ × ℕ), Keeps I lo (executeChecked [] (Db.insertMember setId m.1 m.2)) fun _ => True := by
    refine fun setId m => keeps_topics hI _ fun {view view'} hrun => ?_
    rw [Db.insertMember] at hrun
    split at hrun
    · cases hrun
    · split at hrun
      · cases hrun
        exact ⟨_, _, _, _, rfl⟩
      · cases hrun
  have hset : Keeps I lo (executeChecked [.text fingerprint] (insertTopicSet fingerprint)) fun _ => True := by
    refine keeps_topics hI _ fun {view view'} hrun => ?_
    rw [insertTopicSet] at hrun
    split at hrun
    · cases hrun
    · cases hrun
      exact ⟨_, _, _, _, rfl⟩
  have hstore : Keeps I lo (do
      executeChecked [.text fingerprint] (insertTopicSet fingerprint)
      let setId ← queryId [.text fingerprint] fun db => db.topicSets.idOf fingerprint
      each (fun m => executeChecked [] (Db.insertMember setId m.1 m.2)) members
      rememberTopicSet fingerprint setId
      pure setId) fun _ => True :=
    hset.bind fun _ _ => (keeps_queryId hI.rollBack _ _).bind fun _ _ => (Keeps.each (hinsert _) _).bind fun _ _ =>
      (hremember _).bind fun _ _ => keeps_pure trivial
  refine keeps_look.bind fun w _ => ?_
  dsimp only
  cases w.caches.topicSet fingerprint with
  | some i => exact keeps_pure trivial
  | none =>
      refine (keeps_query hI.rollBack _ _).bind fun found _ => ?_
      cases found with
      | some i => exact (hremember i).bind fun _ _ => keeps_pure trivial
      | none =>
          dsimp only
          split
          · exact (keeps_raise (Q := fun _ => True) _).bind fun _ _ => hstore
          · exact hstore

/-- The channel loop. -/
theorem keeps_channels (hI : TopicWrites I) (channels : List ChannelInfo) :
    Keeps I lo (foldEach addChannel [] channels) fun _ => True :=
  Keeps.foldEach (Q := fun _ => True) (fun _ _ _ _ =>
    (keeps_resolve _ hI.rollBack (fun _ hview => hI.topics hview ⟨_, _, _, _, rfl⟩)
      (fun {_ _ caches} cache hview => hI.remember cache caches.schema caches.topicSet hview) _).bind fun _ _ =>
    (keeps_resolve _ hI.rollBack (fun _ hview => hI.topics hview ⟨_, _, _, _, rfl⟩)
      (fun {_ _ caches} cache hview => hI.remember caches.topic cache caches.topicSet hview) _).bind fun _ _ =>
        keeps_pure trivial) _ _
    (fun _ _ => trivial) trivial

theorem keeps_storeFile {ids : Ids} (hI : Transacts I (ids.key written.dims) written) (setId : ℕ) (counts : List ℕ) :
    Keeps I lo (storeFile env ids written setId counts) fun _ => True := by
  refine (keeps_tick.bind fun _ _ => keeps_pure (Q := fun _ => True) trivial).bind fun now _ => ?_
  refine Keeps.bind (keeps_executeBound hI.rollBack _ hI.upsert) fun _ _ =>
    (keeps_queryId hI.rollBack _ _).bind fun fileId _ =>
      Keeps.bind (keeps_execute hI.rollBack _ fun hview => hI.topical hview ⟨rfl, rfl, rfl, rfl, rfl, rfl⟩) fun _ _ => ?_
  refine Keeps.bind (Keeps.each (fun kv => keeps_executeChecked hI.rollBack _ fun {db view view' caches} hrun hview => ?_) _)
    fun _ _ => Keeps.bind (keeps_execute hI.rollBack _ fun hview => hI.hasError _ _ hview) fun _ _ =>
      keeps_execute hI.rollBack _ fun hview => hI.topical hview ⟨rfl, rfl, rfl, rfl, rfl, rfl⟩
  refine hI.topical hview ?_
  rw [Db.insertEmbedded] at hrun
  split at hrun
  · cases hrun
  · split at hrun
    · cases hrun
      exact ⟨rfl, rfl, rfl, rfl, rfl, rfl⟩
    · cases hrun

/-- **The body of the per-file transaction**: the topics are stored, and then the file. -/
theorem keeps_storingTopics {ids : Ids} (hI : TopicWrites I)
    (hstore : ∀ setId counts, Keeps I lo (storeFile env ids written setId counts) fun _ => True) :
    Keeps I lo (fileTransaction env ids written) fun _ => True := by
  refine (keeps_channels hI _).bind fun byTopic _ => (keeps_resolveTopicSet hI _ _).bind fun setId _ => ?_
  dsimp only
  split
  · exact (keeps_raise (Q := fun _ => True) _).bind fun _ _ => hstore _ _
  · exact hstore _ _

theorem keeps_transaction {ids : Ids} (hI : Transacts I (ids.key written.dims) written) :
    Keeps I lo (fileTransaction env ids written) fun _ => True :=
  keeps_storingTopics hI.topicWrites (keeps_storeFile hI)

end Transaction

theorem keeps_fileTransaction (hI : Writes I S) (ids : Ids) {written : Written} (hw : written ∈ S) :
    Keeps I lo (fileTransaction env ids written) fun _ => True :=
  keeps_transaction (hI.transacts hw _)

theorem keeps_loadCaches (hroll : RollsBack I) : Keeps I lo loadCaches fun _ => True :=
  (keeps_query hroll _ _).bind fun _ _ => (keeps_query hroll _ _).bind fun _ _ =>
    (keeps_query hroll _ _).bind fun _ _ => (keeps_query hroll _ _).bind fun _ _ =>
      (keeps_query hroll _ _).bind fun _ _ => (keeps_query hroll _ _).bind fun _ _ =>
        (keeps_query hroll _ _).bind fun _ _ => keeps_pure trivial

theorem keeps_writeFileRow (hI : Closed I S) (ids : Ids) {written : Written} (hw : written ∈ S) :
    Keeps I lo (writeFileRow env ids written) fun _ => True := by
  refine (keeps_withConn hI.tame (keeps_fileTransaction hI.toWrites ids hw)).attempt.bind fun r _ => ?_
  cases r with
  | ok _ => exact keeps_pure trivial
  | error e =>
      exact (keeps_loadCaches hI.rollBack).bind fun caches _ =>
        Keeps.bind (Q := fun _ => True) (fun w hw => ⟨trivial, hI.setCaches _ hw.inv, hw.since⟩) fun _ _ =>
          (keeps_quarantineExisting hI.tame _ _ _ _).bind fun _ _ => keeps_pure trivial

/-- What an extract would write is in `S`. -/
def Extract.In (S : Set Written) (ex : Extract) : Prop :=
  ∀ summary dims, ex.outcome = .ready summary → ex.dims = some dims → ⟨dims, ex.effKey, ex.stat, summary⟩ ∈ S

theorem keeps_applyExtract (hI : Closed I S) {ex : Extract} (hex : ex.In S) :
    Keeps I lo (applyExtract env ex) fun _ => True := by
  rw [applyExtract.eq_def]
  split
  · exact keeps_pure trivial
  · exact keeps_applyUnparseable hI.tame ex
  · exact keeps_applyUnparseable hI.tame ex
  · exact (keeps_resolveIds hI _).bind fun _ _ =>
      (keeps_quarantineExisting hI.tame _ _ _ _).bind fun _ _ => keeps_pure trivial
  · rename_i summary dims houtcome hdims
    exact (keeps_resolveIds hI _).bind fun ids _ => keeps_writeFileRow hI ids (hex summary dims houtcome hdims)

end Closed

/-! ### The two paths -/

/-- The source gave this fingerprint for the key at the moment `t`, to a HEAD or in a listing. -/
def Fingerprinted (source : Source) (t : ℕ) (key : PyStr) (stat : Stat) : Prop :=
  source.stat t key = .ok (some stat) ∨ ∃ listings, source.listAll t = .ok listings ∧ ⟨key, stat⟩ ∈ listings

/-- What was written for `key` had its fingerprint from the moment `t₁` and its summary from a reading begun at `t₂`. -/
structure CameFrom (source : Source) (key : PyStr) (t₁ t₂ : ℕ) (written : Written) : Prop where
  later : t₁ ≤ t₂
  fingerprint : Fingerprinted source t₁ key written.stat
  dims : ∃ t, trustedDims (source.intendedKey t key) key = some (written.dims, written.effKey)
  reading : source.readSummary t₂ key written.stat.size = .ok written.summary

/-- What the source's answers for keys in `K` can lead to. -/
def fromSource (source : Source) (K : Set PyStr) : Set Written :=
  {written | ∃ key ∈ K, ∃ t₁ t₂, CameFrom source key t₁ t₂ written}

/-- Every key that the source ever lists is in `K`. -/
def Lists (source : Source) (K : Set PyStr) : Prop :=
  ∀ t listings, source.listAll t = .ok listings → ∀ lst ∈ listings, lst.key ∈ K

section Paths

variable {env : Env} {I : Property} {S : Set Written} {source : Source} {K : Set PyStr} {lo t₁ : ℕ}

theorem keeps_resolveKeyDimsThen {α : Type} {key : PyStr} {f : Option (Dims × PyStr) → Py α} {Q : α → Prop}
    (hf : ∀ t, Keeps I lo (f (trustedDims (source.intendedKey t key) key)) Q) :
    Keeps I lo (resolveKeyDims key source >>= f) Q := by
  have heq : (resolveKeyDims key source >>= f) =
      (tick >>= fun t => f (trustedDims (source.intendedKey t key) key)) := by
    funext w
    rfl
  rw [heq]
  exact keeps_tick.bind fun t _ => hf t

/-- From the moment the fingerprint is known, `catalog_object` writes it with a summary read later. -/
theorem keeps_catalogWithStat (hI : Closed I S) {key : PyStr} {stat : Stat}
    (hS : ∀ t dims effKey t₂ summary, trustedDims (source.intendedKey t key) key = some (dims, effKey) → lo ≤ t₂ →
      source.readSummary t₂ key stat.size = .ok summary → ⟨dims, effKey, stat, summary⟩ ∈ S) :
    Keeps I lo (catalogWithStat env key source stat) fun _ => True := by
  refine keeps_resolveKeyDimsThen fun t => ?_
  cases htrusted : trustedDims (source.intendedKey t key) key with
  | none => exact keeps_failed hI.tame _ _ trivial
  | some trusted =>
      refine (keeps_resolveIds hI _).bind fun ids _ => (keeps_query hI.rollBack _ _).bind fun existing _ => ?_
      split
      · exact keeps_pure trivial
      · have hread : Keeps I lo
            (attempt (ask fun t => source.readSummary t key stat.size)) fun r =>
              ∀ summary, r = .ok summary → ∃ t₂, lo ≤ t₂ ∧ source.readSummary t₂ key stat.size = .ok summary := by
          intro w hw
          cases hr : source.readSummary w.clock key stat.size with
          | error e =>
              have hask : ask (fun t => source.readSummary t key stat.size) w = (.error e, w.tickClock) := by
                rw [ask, bind_of_ok (tick_apply w), hr]
                rfl
              rw [attempt_apply, hask]
              exact ⟨fun summary h => (by cases h), hw.inv, hw.since.trans (Nat.le_succ _)⟩
          | ok found =>
              have hask : ask (fun t => source.readSummary t key stat.size) w = (.ok found, w.tickClock) := by
                rw [ask, bind_of_ok (tick_apply w), hr]
                rfl
              rw [attempt_apply, hask]
              refine ⟨fun summary h => ⟨w.clock, hw.since, ?_⟩, hw.inv, hw.since.trans (Nat.le_succ _)⟩
              cases h
              exact hr
        refine hread.bind fun r hr => ?_
        cases r with
        | error e => exact (keeps_quarantineExisting hI.tame _ _ _ _).bind fun _ _ => keeps_pure trivial
        | ok summary =>
            obtain ⟨t₂, hlate, hsummary⟩ := hr summary rfl
            exact keeps_writeFileRow hI ids (hS t _ _ t₂ summary htrusted hlate hsummary)

/-- **What `catalog_object` writes comes from its source**, at moments of the call; a fingerprint that the caller hands
in has to be an earlier answer. -/
theorem keeps_catalogObject (hI : Closed I (fromSource source K)) {key : PyStr} (hkey : key ∈ K) {stat : Option Stat}
    (hstat : ∀ st, stat = some st → ∃ t ≤ lo, Fingerprinted source t key st) :
    Keeps I lo (catalogObject env key source stat) fun _ => True := by
  cases stat with
  | some st =>
      obtain ⟨t, ht, hfp⟩ := hstat st rfl
      exact keeps_catalogWithStat hI fun t' _ _ t₂ _ htrusted hlate hread =>
        ⟨key, hkey, t, t₂, ht.trans hlate, hfp, ⟨t', htrusted⟩, hread⟩
  | none =>
      refine keeps_askThen fun t found _ hfound => ?_
      cases found with
      | none => exact keeps_pure trivial
      | some st =>
          exact keeps_catalogWithStat hI fun t' _ _ t₂ _ htrusted hlate hread =>
            ⟨key, hkey, t, t₂, hlate, Or.inl hfound, ⟨t', htrusted⟩, hread⟩

/-- A job was listed at `t₁`, and its key resolved. -/
def ListedJob (source : Source) (K : Set PyStr) (t₁ : ℕ) (job : Job) : Prop :=
  job.key ∈ K ∧ Fingerprinted source t₁ job.key job.stat ∧
    ∃ t, trustedDims (source.intendedKey t job.key) job.key = some (job.dims, job.effKey)

/-- An extract of a listed job, read at a later moment. -/
theorem extract_in {job : Job} (hjob : ListedJob source K t₁ job) {openAt : ℕ} (hlate : t₁ ≤ openAt) (statAt : ℕ) :
    (job.extract source openAt statAt).In (fromSource source K) := by
  intro summary dims houtcome hdims
  rw [Job.extract, extractSummary] at houtcome hdims ⊢
  cases hread : source.readSummary openAt job.key job.stat.size with
  | ok found =>
      rw [hread] at houtcome hdims
      cases houtcome
      cases hdims
      exact ⟨job.key, hjob.1, t₁, openAt, hlate, hjob.2.1, hjob.2.2, hread⟩
  | error e =>
      rw [hread] at houtcome
      simp only at houtcome
      split at houtcome <;> cases houtcome

theorem keeps_applyAndCount (hI : Closed I S) {ex : Extract} (hex : ex.In S) (tally : Tally) :
    Keeps I lo (applyAndCount env tally ex) fun _ => True :=
  (keeps_applyExtract hI hex).bind fun _ _ => keeps_pure trivial

theorem keeps_classify (hI : Tame I) {lst : Listing} {stored : FileKey → Option PyStr} {scan : Scan}
    (hscan : ∀ job ∈ scan.toExtract, ListedJob source K t₁ job) (hkey : lst.key ∈ K)
    (hlst : Fingerprinted source t₁ lst.key lst.stat) :
    Keeps I lo (classify env source stored scan lst) fun scan => ∀ job ∈ scan.toExtract, ListedJob source K t₁ job := by
  refine keeps_resolveKeyDimsThen fun t => ?_
  cases htrusted : trustedDims (source.intendedKey t lst.key) lst.key with
  | none => exact keeps_failed hI _ _ hscan
  | some trusted =>
      refine keeps_look.bind fun w _ => ?_
      dsimp only
      split
      · exact keeps_pure hscan
      · refine keeps_pure fun job hjob => ?_
        cases List.mem_append.mp hjob with
        | inl hold => exact hscan job hold
        | inr hnew =>
            rw [List.mem_singleton.mp hnew]
            exact ⟨hkey, hlst, t, htrusted⟩

/-- The read phase and the apply phase, over jobs listed at `t₁`. -/
theorem keeps_readAndApply (hI : Closed I (fromSource source K)) (workers : Workers) {jobs : List Job} (hjobs : ∀ job ∈ jobs, ListedJob source K t₁ job)
    (hlo : t₁ ≤ lo) (tally : Tally) :
    Keeps I lo (readAndApply env source workers jobs tally) fun _ => True := by
  have hone : Keeps I lo (foldEach (extractAndApply env source) tally jobs) fun _ => True :=
    Keeps.foldEach (Q := ListedJob source K t₁) (fun _ job _ hjob => keeps_tickThen fun openAt hopen =>
      keeps_tick.bind fun statAt _ => keeps_applyAndCount hI (extract_in hjob (hlo.trans hopen) statAt) _) _ _ hjobs trivial
  cases workers with
  | one => exact hone
  | pool run =>
      rw [readAndApply]
      split
      · refine keeps_tickThen fun start hstart => Keeps.foldEach (Q := fun _ => True) (fun _ c _ _ => ?_) _ _
          (fun _ _ => trivial) trivial
        exact keeps_applyAndCount hI (extract_in (hjobs _ (List.get_mem _ _))
          ((hlo.trans hstart).trans (Nat.le_add_right _ _)) _) _
      · exact hone

/-- **What `full_reconcile` writes comes from its source**: the fingerprints from its listing, the summaries from
readings that start later, on any number of workers. -/
theorem keeps_fullReconcile (hI : Closed I (fromSource source K)) (hK : Lists source K) (workers : Workers) :
    Keeps I lo (fullReconcile env source workers) fun _ => True := by
  refine keeps_askThen fun t₁ listings _ hlist => (keeps_query hI.rollBack _ _).bind fun stored _ => ?_
  have hclassify : Keeps I t₁
      (foldEach (classify env source stored) ⟨fun _ => none, [], Tally.zero⟩ listings)
      fun scan => ∀ job ∈ scan.toExtract, ListedJob source K t₁ job :=
    Keeps.foldEach (Q := fun lst => lst.key ∈ K ∧ Fingerprinted source t₁ lst.key lst.stat)
      (fun _ _ hscan hlst => keeps_classify hI.tame hscan hlst.1 hlst.2) _ _
      (fun lst hlst => ⟨hK t₁ listings hlist lst hlst, Or.inr ⟨listings, hlist, hlst⟩⟩)
      fun _ hjob => absurd hjob List.not_mem_nil
  refine hclassify.bind fun scan hscan => (keeps_readAndApply hI workers hscan le_rfl _).bind fun tally _ =>
    keeps_look.bind fun w _ => (keeps_query hI.rollBack _ _).bind fun rows _ => ?_
  exact (Keeps.foldEach (Q := fun _ => True) (fun _ _ _ _ => keeps_sweepRow hI.tame _ _ _) _ _ (fun _ _ => trivial)
    trivial).bind fun _ _ => (keeps_commit hI.tame).bind fun _ _ => (keeps_recordBuild hI.tame _ _ _).bind fun _ _ => keeps_pure trivial

theorem Closed.mono {S' : Set Written} (hI : Closed I S) (h : S' ⊆ S) : Closed I S' :=
  { hI with upsert := fun hw => hI.upsert (h hw) }

/-- **Every call keeps what every statement keeps.** -/
theorem inv_call (hI : Closed I Set.univ) {w : World} (hw : I w.conn.committed w.conn.working w.caches)
    (c : Runs.Call) :
    I (c.run env w).conn.committed (c.run env w).conn.working (c.run env w).caches := by
  have hnow : Meets I 0 w := ⟨hw, Nat.zero_le _⟩
  cases c with
  | catalogObject key source stat =>
      have hwith : ∀ lo stat, Keeps I lo (catalogWithStat env key source stat) fun _ => True :=
        fun lo stat => keeps_catalogWithStat hI fun _ _ _ _ _ _ _ _ => Set.mem_univ _
      cases stat with
      | some stat => exact ((hwith 0 stat).after hnow).inv
      | none =>
          have hasked : Keeps I 0 (catalogObject env key source none) fun _ => True :=
            keeps_askThen fun t found _ _ => by
              cases found with
              | none => exact keeps_pure trivial
              | some stat => exact hwith t stat
          exact (hasked.after hnow).inv
  | applyExtract ex => exact ((keeps_applyExtract hI fun _ _ _ _ => Set.mem_univ _).after hnow).inv
  | deleteByKey key => exact ((keeps_deleteByKey hI.tame key).after hnow).inv
  | fullReconcile source workers =>
      exact ((keeps_fullReconcile (hI.mono (Set.subset_univ (fromSource source Set.univ)))
        (fun _ _ _ _ _ => Set.mem_univ _) workers).after hnow).inv
  | updateTags fileId setKv unsetKeys => exact ((keeps_updateTags hI.tame fileId setKv unsetKeys).after hnow).inv
  | restart => exact hI.setCaches _ (hI.rollBack _ _ _ hw)

end Paths

end McapCatalog.Builder
