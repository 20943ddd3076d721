import McapCatalog.Overrides
import McapCatalog.ReadBack

/-!
# Overrides through a run of the worker

One identity through a run of the single writer: watch events, tag edits and restarts, in queue order.

* `Move`, `runMoves` — a step of a worker's run, and a run;
* `Move.completed`, `editOverrides` — whether a step is a tag edit that completed with status `ok`, and what such
  an edit does to the overrides of the file it names;
* `move_overrides` — **one step**: the row stays, and its overrides change by the step's edit alone;
* `run_overrides` — **the run**: the row keeps its id, its overrides are the fold of the completed edits, and the
  effective tags are the override-wins merge with the tags of the last summary.
-/

namespace McapCatalog.Runs

open McapCatalog.PyText McapCatalog.PyError McapCatalog.KeyParse McapCatalog.McapSummary
open McapCatalog.Storage McapCatalog.Tables
open McapCatalog.RowidTable McapCatalog.KeyedRows McapCatalog.Connection McapCatalog.CatalogDb
open McapCatalog.Builder McapCatalog.Reconcile McapCatalog.Worker
open McapCatalog.SurvivingState McapCatalog.SurvivingState.Comp

/-! ### Runs of the worker -/

/-- One step of a worker's run: an item, seen through the source as it is then, or a restart. -/
inductive Move where
  | take (source : Source) (workers : Workers) (item : WorkItem)
  | restart

/-- The world after a step. -/
def Move.run (env : Env) (w : World) : Move → World
  | .take source workers item => (workItem env source workers item w).2
  | .restart => Worker.restart w

/-- The world after a run. -/
def runMoves (env : Env) (w : World) (moves : List Move) : World := moves.foldl (Move.run env) w

/-- The tag edit that a step completes with status `ok`. -/
def Move.completed (env : Env) (w : World) : Move → Option TagEditItem
  | .take source workers (.tagEdit item) =>
    match (workItem env source workers (.tagEdit item) w).1 with
    | .ok (some reply) => if reply.status = .ok then some item else none
    | _ => none
  | _ => none

/-- An edit at the time `now` of the overrides of a file whose embedded keys are `embedded`: set keys are stored,
then an unset key masks an embedded tag or drops the override. -/
def editOverrides (embedded : PyStr → Bool) (now : ℤ) (setTags : List (PyStr × PyStr)) (unsetKeys : List PyStr)
    (overrides : Overrides) : Overrides :=
  unsetKeys.foldl (fun (o : Overrides) key => Function.update o key (if embedded key then some (none, now) else none))
    (setTags.foldl (fun (o : Overrides) kv => Function.update o kv.1 (some (some kv.2, now))) overrides)

/-- What a step means for the overrides of an identity with the row `i`. -/
def Move.edit (env : Env) (dims : Dims) (i : ℕ) (w : World) (move : Move) (overrides : Overrides) : Overrides :=
  match move.completed env w with
  | some item =>
    if item.dims = dims then
      editOverrides (fun k => (w.conn.working.tagsEmbedded.lookup (i, k)).isSome) (env.timeNs (w.clock + 1))
        item.setTags item.unsetKeys overrides
    else overrides
  | none => overrides

/-- The edits of a run, in queue order. -/
def foldEdits (env : Env) (dims : Dims) (i : ℕ) : World → List Move → Overrides → Overrides
  | _, [], overrides => overrides
  | w, move :: moves, overrides =>
    foldEdits env dims i (move.run env w) moves (move.edit env dims i w overrides)

/-- No step of the run deletes a row with the id `i`. -/
def Undeleted (env : Env) (i : ℕ) : World → List Move → Prop
  | _, [] => True
  | w, move :: moves => deletions i (move.run env w) = deletions i w ∧ Undeleted env i (move.run env w) moves

variable {env : Env} {dims : Dims} {i : ℕ} {w : World}

/-! ### The steps that are not edits -/

/-- An item that is no tag edit follows a path. -/
theorem builds_workItem (hinj : FingerprintInjective env) (source : Source) (workers : Workers) {item : WorkItem}
    (h : ∀ edit, item ≠ .tagEdit edit) : Builds env (workItem env source workers item) := by
  refine Builds.bind (Builds.attempt ?_) fun r => by
    cases r with
    | ok reply => exact builds_pure _
    | error e => exact builds_pure _
  cases item with
  | catalog path =>
      refine builds_tick.bind fun t => ?_
      show Builds env (if source.waitForStable t path = true then _ else _)
      split
      · exact (builds_catalogObject hinj _ _ _).bind fun _ => builds_pure _
      · exact builds_pure _
  | delete path => exact (builds_deleteByKey _).bind fun _ => builds_pure _
  | rescan => exact (builds_fullReconcile hinj _ _).bind fun _ => builds_pure _
  | stop => exact builds_pure _
  | tagEdit edit => exact absurd rfl (h edit)

/-! ### Tag edits -/

theorem overridesOf_tagSet (now : ℤ) (db : Db) (kv : PyStr × PyStr) :
    overridesOf (tagSet i now db kv) i = Function.update (overridesOf db i) kv.1 (some (some kv.2, now)) := by
  funext k
  by_cases hk : k = kv.1
  · subst hk
    rw [Function.update_self]
    exact AList.lookup_insert _
  · rw [Function.update_of_ne hk]
    exact AList.lookup_insert_ne fun h => hk (Prod.ext_iff.mp h).2

theorem overridesOf_tagUnset (now : ℤ) (db : Db) (key : PyStr) :
    overridesOf (tagUnset i now db key) i = Function.update (overridesOf db i) key
      (if (db.tagsEmbedded.lookup (i, key)).isSome then some (none, now) else none) := by
  funext k
  unfold tagUnset
  by_cases hk : k = key
  · subst hk
    rw [Function.update_self]
    split
    · exact AList.lookup_insert _
    · exact AList.lookup_erase _ _
  · rw [Function.update_of_ne hk]
    split
    · exact AList.lookup_insert_ne fun h => hk (Prod.ext_iff.mp h).2
    · exact AList.lookup_erase_ne fun h => hk (Prod.ext_iff.mp h).2

theorem tagsEmbedded_tagSet (now : ℤ) (db : Db) (kv : PyStr × PyStr) :
    (tagSet i now db kv).tagsEmbedded = db.tagsEmbedded := rfl

theorem tagsEmbedded_tagUnset (now : ℤ) (db : Db) (key : PyStr) :
    (tagUnset i now db key).tagsEmbedded = db.tagsEmbedded := by
  unfold tagUnset
  split <;> rfl

/-- **The edit of the table is the edit of the file's overrides.** -/
theorem overridesOf_edited (now : ℤ) (setTags : List (PyStr × PyStr)) (unsetKeys : List PyStr) (db : Db) :
    overridesOf (edited i now setTags unsetKeys db) i =
      editOverrides (fun k => (db.tagsEmbedded.lookup (i, k)).isSome) now setTags unsetKeys
        (overridesOf db i) := by
  have hset : ∀ (l : List (PyStr × PyStr)) (db : Db),
      overridesOf (l.foldl (tagSet i now) db) i =
          l.foldl (fun (o : Overrides) kv => Function.update o kv.1 (some (some kv.2, now))) (overridesOf db i) ∧
        (l.foldl (tagSet i now) db).tagsEmbedded = db.tagsEmbedded := by
    intro l
    induction l with
    | nil => exact fun db => ⟨rfl, rfl⟩
    | cons kv l ih =>
        intro db
        rw [List.foldl_cons, List.foldl_cons, (ih _).1, (ih _).2, overridesOf_tagSet]
        exact ⟨rfl, rfl⟩
  have hunset : ∀ (l : List PyStr) (db : Db),
      overridesOf (l.foldl (tagUnset i now) db) i =
        l.foldl (fun (o : Overrides) key => Function.update o key
          (if (db.tagsEmbedded.lookup (i, key)).isSome then some (none, now) else none)) (overridesOf db i) := by
    intro l
    induction l with
    | nil => exact fun db => rfl
    | cons key l ih =>
        intro db
        rw [List.foldl_cons, List.foldl_cons, ih, overridesOf_tagUnset, tagsEmbedded_tagUnset]
  rw [edited, editOverrides, hunset, (hset _ _).1, (hset _ _).2]

/-- The row of an identity is the only one its edits reach. -/
theorem lookupFile_eq_iff {db : Db} {r r' : Row FileKey FileCols} {dims' : Dims}
    (hr : db.lookupFile dims = some r) (hr' : db.lookupFile dims' = some r') : r'.id = r.id ↔ dims' = dims := by
  obtain ⟨hmem, hnames, _⟩ := lookupFile_eq_some_iff.mp hr
  obtain ⟨hmem', hnames', _⟩ := lookupFile_eq_some_iff.mp hr'
  constructor
  · intro hid
    rw [db.files.eq_of_id_eq hmem' hmem hid, hnames] at hnames'
    exact (Option.some.inj hnames').symm
  · rintro rfl
    rw [Option.some.inj (hr'.symm.trans hr)]

theorem lookupFile_of_onlyOverrides {db db' : Db} {j : ℕ} (h : OnlyOverrides j db db') (dims : Dims) :
    db'.lookupFile dims = db.lookupFile dims := by
  obtain ⟨o, rfl⟩ := h.only
  rfl

/-- What is committed of the row's overrides is what the connection sees. -/
theorem overridesOf_committed (hw : WorldInv env w) (h : Holds dims i w) :
    overridesOf w.conn.committed i = overridesOf w.conn.working i := by
  obtain ⟨r, hr, rfl⟩ := h.2
  funext k
  exact (hw.behind.overrides r.id r (Table.get_of_mem (lookupFile_eq_some_iff.mp hr).1) k).symm

/-- Dropping the open transaction keeps the row and its overrides. -/
theorem holds_of_committed (hw : WorldInv env w) (h : Holds dims i w) {w' : World}
    (hc : w'.conn.committed = w.conn.committed) (hv : w'.conn.working = w.conn.committed) :
    Holds dims i w' ∧ overridesOf w'.conn.working i = overridesOf w.conn.working i := by
  refine ⟨⟨?_, ?_⟩, ?_⟩
  · rw [hc]
    exact h.1
  · rw [hv]
    exact h.1
  · rw [hv, overridesOf_committed hw h]

/-- What `handle_tag_edit` answers. -/
def answered : Except PyErr TagEditResult → TagEditResult
  | .ok reply => reply
  | .error _ => ⟨.error, []⟩

/-- A tag edit as the worker runs it, from what `applyTagEdit` comes to. -/
theorem workItem_tagEdit_of_apply {source : Source} {workers : Workers} {item : TagEditItem} {w' : World}
    {r : Except PyErr TagEditResult} (h : applyTagEdit env item w = (r, w')) :
    workItem env source workers (.tagEdit item) w = (.ok (some (answered r)), w') := by
  have hatt : attempt (applyTagEdit env item) w = (.ok r, w') := by rw [attempt_apply, h]
  have hhandle : handleTagEdit env item w = (.ok (answered r), w') := by
    rw [handleTagEdit, bind_of_ok hatt]
    cases r <;> rfl
  have hdispatch : dispatch env source workers (.tagEdit item) w = (.ok (some (answered r)), w') := by
    rw [dispatch, bind_of_ok hhandle]
    rfl
  have hitem : attempt (dispatch env source workers (.tagEdit item)) w =
      (.ok (.ok (some (answered r))), w') := by
    rw [attempt_apply, hdispatch]
  rw [workItem, bind_of_ok hitem]
  rfl

/-- An edit that has expired. -/
theorem applyTagEdit_expired {item : TagEditItem} (hlate : item.deadline < env.monotonic w.clock) :
    applyTagEdit env item w = (.ok ⟨.expired, []⟩, w.tickClock) := by
  rw [applyTagEdit, bind_of_ok (tick_apply w), if_pos hlate]
  rfl

/-- One whose lookup raises, ... -/
theorem applyTagEdit_of_error {item : TagEditItem} (hintime : ¬item.deadline < env.monotonic w.clock) {e : PyErr} {w' : World}
    (hlookup : lookupFileId item.dims w.tickClock = (.error e, w')) : applyTagEdit env item w = (.error e, w') := by
  rw [applyTagEdit, bind_of_ok (tick_apply w), if_neg hintime, bind_of_error hlookup]

/-- ... finds no file, ... -/
theorem applyTagEdit_of_none {item : TagEditItem} (hintime : ¬item.deadline < env.monotonic w.clock) {w' : World}
    (hlookup : lookupFileId item.dims w.tickClock = (.ok none, w')) :
    applyTagEdit env item w = (.ok ⟨.notFound, []⟩, w') := by
  rw [applyTagEdit, bind_of_ok (tick_apply w), if_neg hintime, bind_of_ok hlookup]
  rfl

/-- ... or finds one. -/
theorem applyTagEdit_of_some {item : TagEditItem} (hintime : ¬item.deadline < env.monotonic w.clock) {i : ℕ} {w' : World}
    (hlookup : lookupFileId item.dims w.tickClock = (.ok (some i), w')) :
    applyTagEdit env item w = (updateTags env i item.setTags item.unsetKeys >>= fun _ =>
      query [] (fun db => orderFst (db.tagsEffective i)) >>= fun tags => pure ⟨.ok, tags⟩ : Py TagEditResult) w' := by
  rw [applyTagEdit, bind_of_ok (tick_apply w), if_neg hintime, bind_of_ok hlookup]

/-- **The exits of a tag edit**: it is stored and answered `ok`, or answered otherwise with the database as it
was, or as it was last committed. -/
theorem workItem_tagEdit (env : Env) (hq : w.Quiet) (source : Source) (workers : Workers) (item : TagEditItem) :
    (∃ r tags, w.conn.working.lookupFile item.dims = some r ∧
        OnlyOverrides r.id w.conn.working (edited r.id (env.timeNs (w.clock + 1)) item.setTags item.unsetKeys
          w.conn.working) ∧
        workItem env source workers (.tagEdit item) w = (.ok (some ⟨.ok, tags⟩),
          (w.tickClock.tickClock.setWorking (edited r.id (env.timeNs (w.clock + 1)) item.setTags item.unsetKeys
            w.conn.working)).commitWorking)) ∨
      ∃ reply w', workItem env source workers (.tagEdit item) w = (.ok (some reply), w') ∧
        reply.status ≠ .ok ∧ (w' = w.tickClock ∨ w' = w.tickClock.tickClock.rollBackWorking) := by
  have hq1 := hq.tickClock
  by_cases hlate : item.deadline < env.monotonic w.clock
  · exact Or.inr ⟨_, _, workItem_tagEdit_of_apply (applyTagEdit_expired hlate), (by simp [answered]), Or.inl rfl⟩
  rcases hb : bindError (dimsParams item.dims) with _ | e
  · have hlookup : lookupFileId item.dims w.tickClock =
        (.ok ((w.conn.working.lookupFile item.dims).map Row.id), w.tickClock) := query_ok hq1 hb _
    rcases hfile : w.conn.working.lookupFile item.dims with _ | r
    · rw [hfile] at hlookup
      exact Or.inr ⟨_, _, workItem_tagEdit_of_apply (applyTagEdit_of_none hlate hlookup), (by simp [answered]), Or.inl rfl⟩
    rw [hfile] at hlookup
    have happly := @applyTagEdit_of_some env w _ hlate _ _ hlookup
    rcases updateTags_cases env hq1 r.id item.setTags item.unsetKeys with ⟨hrun, honly⟩ | ⟨e, hrun⟩
    · refine Or.inl ⟨r, orderFst ((edited r.id (env.timeNs (w.clock + 1)) item.setTags item.unsetKeys
        w.conn.working).tagsEffective r.id), rfl, honly, ?_⟩
      have hdone := happly.trans (bind_of_ok hrun)
      rw [bind_of_ok (query_ok (hq1.tickClock.setWorking _).commitWorking bindError_nil _)] at hdone
      exact workItem_tagEdit_of_apply hdone
    · have hfail := happly.trans (bind_of_error hrun)
      exact Or.inr ⟨_, _, workItem_tagEdit_of_apply hfail, (by simp [answered]), Or.inr rfl⟩
  · have hlookup : lookupFileId item.dims w.tickClock = (.error e, w.tickClock) := query_unbound hq1 hb _
    exact Or.inr ⟨_, _, workItem_tagEdit_of_apply (applyTagEdit_of_error hlate hlookup), (by simp [answered]), Or.inl rfl⟩

/-- A step that is no tag edit completes none. -/
theorem completed_of_ne {source : Source} {workers : Workers} {item : WorkItem} (h : ∀ edit, item ≠ .tagEdit edit) :
    (Move.take source workers item).completed env w = none := by
  cases item with
  | tagEdit edit => exact absurd rfl (h edit)
  | catalog path => rfl
  | delete path => rfl
  | rescan => rfl
  | stop => rfl

/-- **One step keeps the invariant of the writer's world.** -/
theorem Move.worldInv (hinj : FingerprintInjective env) (hw : WorldInv env w) (move : Move) :
    WorldInv env (move.run env w) := by
  cases move with
  | restart => exact worldInv_opened hw.committed w.clock
  | take source workers item =>
      by_cases hedit : ∃ edit, item = .tagEdit edit
      · obtain ⟨edit, rfl⟩ := hedit
        have htick : WorldInv env w.tickClock := (Act.tick w).worldInv hw
        have htick2 : WorldInv env w.tickClock.tickClock := (Act.tick _).worldInv htick
        rcases workItem_tagEdit env hw.quiet source workers edit with
          ⟨r, tags, _, honly, hrun⟩ | ⟨reply, w', hrun, _, rfl | rfl⟩
        · rw [Move.run, hrun]
          exact worldInv_edited htick2 honly
        · rw [Move.run, hrun]
          exact htick
        · rw [Move.run, hrun]
          exact worldInv_rollBack htick2
      · have hne : ∀ edit, item ≠ .tagEdit edit := fun edit h => hedit ⟨edit, h⟩
        exact (builds_workItem hinj source workers hne w hw).1

/-! ### One step, then a run -/

/-- A step whose item is no edit changes no override of a row it keeps. -/
theorem edit_of_completed_none {move : Move} (h : move.completed env w = none) (overrides : Overrides) :
    move.edit env dims i w overrides = overrides := by
  rw [Move.edit, h]

/-- **One step**: the row stays where it is, and its overrides change by the step's edit alone. -/
theorem move_overrides (hinj : FingerprintInjective env) (hw : WorldInv env w) (hold : Holds dims i w)
    (move : Move) (hkept : deletions i (move.run env w) = deletions i w) :
    Holds dims i (move.run env w) ∧
      overridesOf (move.run env w).conn.working i = move.edit env dims i w (overridesOf w.conn.working i) := by
  cases move with
  | restart => exact holds_of_committed hw hold rfl rfl
  | take source workers item =>
      by_cases hedit : ∃ edit, item = .tagEdit edit
      · obtain ⟨edit, rfl⟩ := hedit
        rcases workItem_tagEdit env hw.quiet source workers edit with
          ⟨r, tags, hr, honly, hrun⟩ | ⟨reply, w', hrun, hstatus, hw'⟩
        · have hcompleted : (Move.take source workers (.tagEdit edit)).completed env w = some edit := by
            rw [Move.completed, hrun]
            rfl
          obtain ⟨r₀, hr₀, hid⟩ := hold.2
          have hrow : (edited r.id (env.timeNs (w.clock + 1)) edit.setTags edit.unsetKeys
              w.conn.working).lookupFile dims = some r₀ := by
            rw [lookupFile_of_onlyOverrides honly, hr₀]
          refine ⟨by rw [Move.run, hrun]; exact ⟨⟨r₀, hrow, hid⟩, r₀, hrow, hid⟩, ?_⟩
          have hself := lookupFile_eq_iff hr₀ hr
          rw [Move.run, hrun, Move.edit, hcompleted]
          show overridesOf (edited r.id _ _ _ _) i = if edit.dims = dims then _ else _
          by_cases hd : edit.dims = dims
          · have hri : r.id = i := (hself.mpr hd).trans hid
            rw [if_pos hd, hri]
            exact overridesOf_edited _ _ _ _
          · have hri : i ≠ r.id := fun h => hd (hself.mp (h.symm.trans hid.symm))
            rw [if_neg hd]
            exact funext fun k => honly.others i k hri
        · have hcompleted : (Move.take source workers (.tagEdit edit)).completed env w = none := by
            rw [Move.completed, hrun]
            exact if_neg hstatus
          rw [edit_of_completed_none hcompleted, Move.run, hrun]
          rcases hw' with rfl | rfl
          · exact ⟨hold, rfl⟩
          · exact holds_of_committed hw hold rfl rfl
      · have hne : ∀ edit, item ≠ .tagEdit edit := fun edit h => hedit ⟨edit, h⟩
        rw [edit_of_completed_none (completed_of_ne hne)]
        have hpath := (builds_workItem hinj source workers hne w hw).2
        have hkeeps : Keeps dims i _ _ := path_keeps hpath hw
        obtain ⟨hhold, hover⟩ := hkeeps.2 hkept.symm hold
        exact ⟨hhold, funext hover⟩

/-- A run keeps the invariant, the row, and folds the edits. -/
theorem runMoves_overrides (hinj : FingerprintInjective env) (moves : List Move) (hw : WorldInv env w)
    (hold : Holds dims i w) (hkept : Undeleted env i w moves) :
    WorldInv env (runMoves env w moves) ∧ Holds dims i (runMoves env w moves) ∧
      overridesOf (runMoves env w moves).conn.working i =
        foldEdits env dims i w moves (overridesOf w.conn.working i) := by
  induction moves generalizing w with
  | nil => exact ⟨hw, hold, rfl⟩
  | cons move moves ih =>
      obtain ⟨hhold, hover⟩ := move_overrides hinj hw hold move hkept.1
      obtain ⟨hinv, hrow, hfold⟩ := ih (move.worldInv hinj hw) hhold hkept.2
      refine ⟨hinv, hrow, ?_⟩
      rw [foldEdits, ← hover]
      exact hfold

theorem Undeleted.initial {moves moves' : List Move} (h : Undeleted env i w moves') (hp : moves <+: moves') :
    Undeleted env i w moves := by
  induction moves generalizing w moves' with
  | nil => trivial
  | cons move moves ih =>
      obtain ⟨rest, rfl⟩ := hp
      exact ⟨h.1, ih h.2 ⟨rest, rfl⟩⟩

/-- **Overrides survive the builder.**  A file that has a row when a run of the worker starts, and whose row no
step deletes, keeps the row's id at every moment of the run; its overrides are then the initial ones edited by the
completed edits addressed to it, in queue order, and its effective tags the override-wins merge of those with the
tags embedded in its last summary. -/
theorem run_overrides (hinj : FingerprintInjective env) (hw : Reached env w) (hold : Holds dims i w)
    {moves : List Move} (hkept : Undeleted env i w moves) {before : List Move} (hp : before <+: moves) :
    ∃ r, (runMoves env w before).conn.committed.lookupFile dims = some r ∧ r.id = i ∧
      overridesOf (runMoves env w before).conn.committed i =
        foldEdits env dims i w before (overridesOf w.conn.committed i) ∧
      ∀ k v isOverride,
        (k, v, isOverride) ∈ (runMoves env w before).conn.committed.tagsEffective i ↔
          match foldEdits env dims i w before (overridesOf w.conn.committed i) k with
          | some (value, _) => value = some v ∧ isOverride = true
          | none => (k, v) ∈ deriveTags r.val.origin.summary ∧ isOverride = false := by
  have hinv := hw.worldInv hinj
  obtain ⟨hinv', hold', hfold⟩ := runMoves_overrides hinj before hinv hold (hkept.initial hp)
  obtain ⟨⟨r, hr, hid⟩, _⟩ := id hold'
  have hover : overridesOf (runMoves env w before).conn.committed i =
      foldEdits env dims i w before (overridesOf w.conn.committed i) := by
    rw [overridesOf_committed hinv' hold', overridesOf_committed hinv hold, hfold]
  refine ⟨r, hr, hid, hover, fun k v isOverride => ?_⟩
  have hembedded := hinv'.committed.embedded r (lookupFile_eq_some_iff.mp hr).1 k v
  rw [hid] at hembedded
  have hmem := @mem_tagsEffective i (runMoves env w before).conn.committed k v isOverride
  rw [hover, hembedded] at hmem
  exact hmem

/-- The example bucket after the recording was replaced. -/
def replacedBucket : Bucket :=
  oneObjectBucket.insert sampleKey ⟨py "def", 120, 9, fun _ => .ok (some twoChannelSummary)⟩

/-- A run with an edit, a re-catalog of changed content and a restart. -/
def sampleMoves : List Move :=
  [.take (s3Source (fun _ => replacedBucket) []) .one
      (.tagEdit ⟨sampleDims, [(py "note", py "dusty lidar")], [py "weather"], 100⟩),
    .take (s3Source (fun _ => replacedBucket) []) .one (.catalog sampleKey),
    .restart]

theorem run_overrides_sample :
    ∃ r, (runMoves oneTopicEnv afterOneCatalog sampleMoves).conn.committed.lookupFile sampleDims = some r ∧
      r.id = 1 ∧
      overridesOf (runMoves oneTopicEnv afterOneCatalog sampleMoves).conn.committed 1 =
        foldEdits oneTopicEnv sampleDims 1 afterOneCatalog sampleMoves
          (overridesOf afterOneCatalog.conn.committed 1) ∧
      ∀ k v isOverride,
        (k, v, isOverride) ∈
            (runMoves oneTopicEnv afterOneCatalog sampleMoves).conn.committed.tagsEffective 1 ↔
          match foldEdits oneTopicEnv sampleDims 1 afterOneCatalog sampleMoves
              (overridesOf afterOneCatalog.conn.committed 1) k with
          | some (value, _) => value = some v ∧ isOverride = true
          | none => (k, v) ∈ deriveTags r.val.origin.summary ∧ isOverride = false := by
  have hreached : Reached oneTopicEnv afterOneCatalog :=
    Reached.call (Reached.empty 0) (Call.catalogObject sampleKey (s3Source (fun _ => oneObjectBucket) []) none)
  have hrow : (afterOneCatalog.conn.committed.lookupFile sampleDims).map Row.id = some 1 ∧
      (afterOneCatalog.conn.working.lookupFile sampleDims).map Row.id = some 1 := by decide +kernel
  have hold : Holds sampleDims 1 afterOneCatalog :=
    ⟨Option.map_eq_some_iff.mp hrow.1, Option.map_eq_some_iff.mp hrow.2⟩
  have hkept : Undeleted oneTopicEnv 1 afterOneCatalog sampleMoves :=
    ⟨by decide +kernel, by decide +kernel, by decide +kernel, trivial⟩
  exact run_overrides fingerprintInjective_oneTopicEnv hreached hold hkept (List.prefix_refl _)

end McapCatalog.Runs
