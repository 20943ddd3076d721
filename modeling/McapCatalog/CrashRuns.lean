import McapCatalog.Coherence

/-!
# Runs that are cut short

An item that raises between the inserts of `_resolve_ids` leaves entries without rows, and the daemon goes on.  A process
that is started again after such an item, or that was killed in the middle of one, does not: the caches are loaded from
what is committed.

* `Durable` — a call that returns keeps a property; one that raises leaves what is committed in a set, whichever statement
  failed; `Durable.dispatch` follows the two exits from `_resolve_ids` and `_write_file_row` through one item;
* `CrashStep`, `CrashRun` — runs in which an item that does not return is the last one of its process;
* `soundAt_of_crashRun`, `crashSafe_of_crashRun` — **such runs keep the caches and the tables coherent**, without a
  condition on what fails.
-/

namespace McapCatalog.Builder

open McapCatalog.PyText McapCatalog.PyError McapCatalog.KeyParse McapCatalog.McapSummary McapCatalog.Storage
open McapCatalog.Tables McapCatalog.RowidTable
open McapCatalog.Connection McapCatalog.CatalogDb McapCatalog.Reconcile McapCatalog.Worker McapCatalog.Runs
open McapCatalog.SurvivingState McapCatalog.SurvivingState.Comp
open Relation

/-- What is committed is in `C`. -/
abbrev CommittedIn (C : Db → Prop) (w : World) : Prop := C w.conn.committed

/-- **The two calls that fill the caches**, under any script of failures: if they return they keep the property, and if they
raise, what is committed is in `C`. -/
structure Durable (env : Env) (I : Property) (C : Db → Prop) : Prop where
  tame : Tame I
  committed : ∀ {db view caches}, I db view caches → C db
  resolveIds : ∀ dims, Triple (HoldsAt I) (resolveIds dims)
    (fun ids w => HoldsAt I w ∧ fileKey w.conn.working dims = some (ids.key dims)) (fun _ => CommittedIn C)
  write : ∀ ids written, Triple
    (fun w => HoldsAt I w ∧ fileKey w.conn.working written.dims = some (ids.key written.dims))
    (writeFileRow env ids written) (fun _ => HoldsAt I) (fun _ => CommittedIn C)

section Operations

variable {env : Env} {I : Property} {C : Db → Prop} {source : Source} {α : Type}

/-- A call that keeps the property in both exits. -/
theorem Durable.kept (hI : Durable env I C) {m : Py α} {Q : α → Prop} (hm : Keeps I 0 m Q) :
    Triple (HoldsAt I) m (fun a w => Q a ∧ HoldsAt I w) (fun _ => CommittedIn C) :=
  hm.conseq (fun _ hw => ⟨hw, Nat.zero_le _⟩) (fun _ _ h => ⟨h.1, h.2.inv⟩) fun _ _ h => hI.committed h.inv

/-- ... whatever it returns. -/
theorem Durable.done (hI : Durable env I C) {m : Py α} {Q : α → Prop} (hm : Keeps I 0 m Q) :
    Triple (HoldsAt I) m (fun _ => HoldsAt I) (fun _ => CommittedIn C) :=
  (hI.kept hm).post fun _ _ h => h.2

theorem Durable.quarantine (hI : Durable env I C) (ids : Ids) (dims : Dims) (effKey text : PyStr) (a : α) :
    Triple (HoldsAt I) (quarantineExisting env ids dims effKey text >>= fun _ => pure a) (fun _ => HoldsAt I)
      (fun _ => CommittedIn C) :=
  hI.done ((keeps_quarantineExisting hI.tame ids dims effKey text).bind fun _ _ => keeps_pure (Q := fun _ => True) trivial)

theorem triple_return {P : World → Prop} {E : PyErr → World → Prop} (a : α) : Triple P (pure a : Py α) (fun _ => P) E :=
  fun _ hw => hw

theorem triple_tick {E : PyErr → World → Prop} : Triple (HoldsAt I) tick (fun _ => HoldsAt I) E := fun _ hw => hw

theorem triple_resolveKeyDims {E : PyErr → World → Prop} (key : PyStr) (source : Source) :
    Triple (HoldsAt I) (resolveKeyDims key source) (fun _ => HoldsAt I) E := fun _ hw => hw

theorem Durable.ask (hI : Durable env I C) (answer : ℕ → Except PyErr α) :
    Triple (HoldsAt I) (ask answer) (fun _ => HoldsAt I) (fun _ => CommittedIn C) := by
  refine triple_tick.bind fun t w hw => ?_
  cases answer t with
  | ok a => exact hw
  | error e => exact hI.committed hw

/-- A query fails, or shows what the connection sees and changes nothing. -/
theorem Durable.query (hI : Durable env I C) (params : List Param) (read : Db → α) (P : Db → Prop) :
    Triple (fun w => HoldsAt I w ∧ P w.conn.working) (query params read) (fun _ w => HoldsAt I w ∧ P w.conn.working)
      (fun _ => CommittedIn C) := by
  intro w hw
  have hkeeps : Keeps I 0 (Connection.query params read) fun _ => True := keeps_query hI.tame.rollBack params read
  have hleft := hkeeps w ⟨hw.1, Nat.zero_le _⟩
  rcases hquery : Connection.query params read w with ⟨r, w'⟩
  rw [hquery] at hleft
  cases r with
  | ok found =>
      refine ⟨hleft.2.inv, ?_⟩
      rw [(query_of_ok hquery).2.1]
      exact hw.2
  | error e => exact hI.committed hleft.inv

/-- **`apply_extract`.** -/
theorem Durable.applyExtract (hI : Durable env I C) (ex : Extract) :
    Triple (HoldsAt I) (applyExtract env ex) (fun _ => HoldsAt I) (fun _ => CommittedIn C) := by
  rw [Builder.applyExtract.eq_def]
  split
  · exact triple_return _
  · exact hI.done (keeps_applyUnparseable hI.tame ex)
  · exact hI.done (keeps_applyUnparseable hI.tame ex)
  · rename_i text dims _ _
    exact (hI.resolveIds dims).bind fun ids =>
      (hI.quarantine ids dims _ _ _).conseq (fun _ h => h.1) (fun _ _ h => h) fun _ _ h => h
  · rename_i summary dims _ _
    exact (hI.resolveIds dims).bind fun ids => hI.write ids ⟨dims, ex.effKey, ex.stat, summary⟩

/-- `catalog_object` from the moment the fingerprint is known. -/
theorem Durable.catalogWithStat (hI : Durable env I C) (key : PyStr) (source : Source) (stat : Stat) :
    Triple (HoldsAt I) (catalogWithStat env key source stat) (fun _ => HoldsAt I) (fun _ => CommittedIn C) := by
  refine (triple_resolveKeyDims key source).bind fun trusted => ?_
  cases trusted with
  | none => exact hI.done (keeps_failed (Q := fun _ => True) hI.tame _ _ trivial)
  | some trusted =>
      refine (hI.resolveIds trusted.1).bind fun ids => ?_
      refine (hI.query _ _ fun db => fileKey db trusted.1 = some (ids.key trusted.1)).bind fun existing => ?_
      split
      · exact fun w hw => hw.1
      · intro w hw
        rw [bind_of_ok (attempt_ask _ w)]
        cases source.readSummary w.clock key stat.size with
        | error e => exact hI.quarantine ids trusted.1 _ _ _ w.tickClock hw.1
        | ok summary => exact hI.write ids ⟨trusted.1, trusted.2, stat, summary⟩ w.tickClock hw

/-- **`catalog_object`.** -/
theorem Durable.catalogObject (hI : Durable env I C) (key : PyStr) (source : Source) :
    Triple (HoldsAt I) (catalogObject env key source none) (fun _ => HoldsAt I) (fun _ => CommittedIn C) := by
  refine (hI.ask _).bind fun found => ?_
  cases found with
  | none => exact triple_return _
  | some stat => exact hI.catalogWithStat key source stat

theorem Durable.applyAndCount (hI : Durable env I C) (tally : Tally) (ex : Extract) :
    Triple (HoldsAt I) (applyAndCount env tally ex) (fun _ => HoldsAt I) (fun _ => CommittedIn C) :=
  (hI.applyExtract ex).bind fun _ => triple_return _

theorem Durable.readAndApply (hI : Durable env I C) (source : Source) (workers : Workers) (jobs : List Job) (tally : Tally) :
    Triple (HoldsAt I) (readAndApply env source workers jobs tally) (fun _ => HoldsAt I) (fun _ => CommittedIn C) := by
  have hone : Triple (HoldsAt I) (foldEach (extractAndApply env source) tally jobs) (fun _ => HoldsAt I)
      (fun _ => CommittedIn C) :=
    Triple.foldEach (I := fun _ _ => HoldsAt I) (fun tally job _ => triple_tick.bind fun _ =>
      triple_tick.bind fun _ => hI.applyAndCount tally _) jobs tally
  cases workers with
  | one => exact hone
  | pool run =>
      rw [Reconcile.readAndApply]
      split
      · exact triple_tick.bind fun start =>
          Triple.foldEach (I := fun _ _ => HoldsAt I) (fun tally _ _ => hI.applyAndCount tally _) _ tally
      · exact hone

/-- **`full_reconcile`.** -/
theorem Durable.fullReconcile (hI : Durable env I C) (source : Source) (workers : Workers) :
    Triple (HoldsAt I) (fullReconcile env source workers) (fun _ => HoldsAt I) (fun _ => CommittedIn C) := by
  have hT := hI.tame
  refine (hI.ask _).bind fun listings => ?_
  refine (hI.done (keeps_query hT.rollBack _ _)).bind fun stored => ?_
  refine Triple.bind (Q := fun _ => HoldsAt I)
    (Triple.foldEach (I := fun _ _ => HoldsAt I) (fun scan lst _ => ?_) listings _) fun scan => ?_
  · refine (triple_resolveKeyDims lst.key source).bind fun trusted => ?_
    cases trusted with
    | none => exact hI.done (keeps_failed (Q := fun _ => True) hT _ _ trivial)
    | some trusted =>
        refine hI.done (Q := fun _ => True) (keeps_look.bind fun w _ => ?_)
        show Keeps I 0 (if (compositeIds w.caches trusted.1).bind stored = some lst.stat.etag then _ else _) fun _ => True
        split <;> exact keeps_pure trivial
  · refine (hI.readAndApply source workers _ _).bind fun tally => hI.done (Q := fun _ => True) ?_
    exact keeps_look.bind fun _ _ => (keeps_query hT.rollBack _ _).bind fun rows _ =>
      (Keeps.foldEach (Q := fun _ => True) (R := fun _ => True) (fun _ _ _ _ => keeps_sweepRow hT _ _ _) _ _
        (fun _ _ => trivial) trivial).bind fun _ _ => (keeps_commit hT).bind fun _ _ =>
          (keeps_recordBuild hT _ _ _).bind fun _ _ => keeps_pure (Q := fun _ => True) trivial

/-- **One item of the worker**, before its `except`: it keeps the property if it returns, and if it raises or is cut short,
what is committed is in `C`. -/
theorem Durable.dispatch (hI : Durable env I C) (source : Source) (workers : Workers) (item : WorkItem) :
    Triple (HoldsAt I) (dispatch env source workers item) (fun _ => HoldsAt I) (fun _ => CommittedIn C) := by
  cases item with
  | tagEdit edit => exact hI.done ((keeps_handleTagEdit hI.tame edit).bind fun _ _ => keeps_pure (Q := fun _ => True) trivial)
  | stop => exact triple_return _
  | catalog path =>
      refine triple_tick.bind fun t => ?_
      split
      · exact (hI.catalogObject _ source).bind fun _ => triple_return _
      · exact triple_return _
  | delete path => exact hI.done ((keeps_deleteByKey hI.tame _).bind fun _ _ => keeps_pure (Q := fun _ => True) trivial)
  | rescan => exact (hI.fullReconcile source workers).bind fun _ => triple_return _

end Operations

/-! ### The caches and the tables -/

section Sound

variable {env : Env} {w w' : World}

/-- What is committed stays as it is. -/
abbrev Kept (base : Db) : Property := fun db _ _ => db = base

theorem writes_kept (base : Db) (S : Set Written) : Writes (Kept base) S where
  rollBack _ _ _ h := h
  beside h _ := h
  upsert _ _ h := h
  hasError _ _ _ _ _ h := h
  setCaches _ h := h

/-- `_resolve_ids` that raises has committed nothing. -/
theorem committed_of_resolveIds_error {dims : Dims} {e : PyErr} (h : resolveIds dims w = (.error e, w')) :
    w'.conn.committed = w.conn.committed := by
  have hwrites := writes_kept w.conn.committed Set.univ
  have hcommit : Triple (Meets (Kept w.conn.committed) 0) commit (fun _ _ => True)
      (fun _ => Meets (Kept w.conn.committed) 0) := by
    intro v hv
    rcases hrun : commit v with ⟨r, v'⟩
    cases r with
    | ok _ => trivial
    | error _ => exact ⟨(commit_of_error hrun).1.1.trans hv.inv, Nat.zero_le _⟩
  have hall : Triple (Meets (Kept w.conn.committed) 0) (resolveIds dims) (fun _ _ => True)
      (fun _ => Meets (Kept w.conn.committed) 0) :=
    Triple.bind (keeps_resolveLookup hwrites _ beside_customer _) fun _ =>
      Triple.bind ((keeps_resolveLookup hwrites _ beside_site _).conseq (fun _ h => h.2) (fun _ _ h => h) fun _ _ h => h)
        fun _ => Triple.bind
          ((keeps_resolveLookup hwrites _ beside_robot _).conseq (fun _ h => h.2) (fun _ _ h => h) fun _ _ h => h)
          fun _ => Triple.bind
            ((keeps_resolveLookup hwrites _ beside_source _).conseq (fun _ h => h.2) (fun _ _ h => h) fun _ _ h => h)
            fun _ => Triple.bind (hcommit.conseq (fun _ h => h.2) (fun _ _ h => h) fun _ _ h => h)
              fun _ _ _ => trivial
  exact (hall.error ⟨rfl, Nat.zero_le _⟩ h).inv

/-- `_write_file_row` returns into a sound world; it raises where the reload of the caches does, before it has deleted
anything, or after the reload. -/
theorem SoundAt.writeFileRow_exits (hinj : FingerprintInjective env) (h : SoundAt env w) {ids : Ids} {written : Written}
    (hkey : fileKey w.conn.working written.dims = some (ids.key written.dims)) :
    Exit (fun _ => SoundAt env) (fun _ => CommittedIn (DbInv env)) (Builder.writeFileRow env ids written w) := by
  by_cases hclear : ClearWrite env ids written w
  · have hleft := h.writeFileRow hinj hkey hclear
    rcases hrun : Builder.writeFileRow env ids written w with ⟨r, w'⟩
    rw [Leaves, hrun] at hleft
    cases r with
    | ok _ => exact hleft
    | error _ => exact hleft.committed
  · rw [ClearWrite] at hclear
    push Not at hclear
    obtain ⟨e, w₁, hrun, hload⟩ := hclear
    have hatt : attempt (withConn (Builder.fileTransaction env ids written)) w = (.ok (.error e), w₁) := by
      rw [attempt_apply, hrun]
    obtain ⟨hcommitted, _⟩ := withConn_of_error (keepsCommitted_fileTransaction env ids written) hrun
    rw [Builder.writeFileRow, bind_of_ok hatt]
    rcases hloaded : loadCaches w₁ with ⟨r, w₂⟩
    cases r with
    | ok caches => exact absurd hloaded (hload caches w₂)
    | error e' =>
        have hkept : Meets (Kept w₁.conn.committed) 0 w₂ := by
          have hkeeps : Keeps (Kept w₁.conn.committed) 0 loadCaches fun _ => True := keeps_loadCaches fun _ _ _ h => h
          have hleft := hkeeps.after (w := w₁) ⟨rfl, Nat.zero_le _⟩
          rwa [hloaded] at hleft
        show Exit _ _ ((loadCaches >>= _) w₁)
        rw [bind_of_error hloaded]
        show DbInv env w₂.conn.committed
        rw [hkept.inv, hcommitted]
        exact h.committed

/-- **Coherent caches are durable.** -/
theorem durable_sound (hinj : FingerprintInjective env) : Durable env (Sound env) (DbInv env) where
  tame := tame_sound env
  committed h := h.committed
  resolveIds dims w h := by
    rcases hrun : resolveIds dims w with ⟨r, w'⟩
    cases r with
    | ok ids => exact SoundAt.resolveIds h hrun
    | error e =>
        show DbInv env w'.conn.committed
        rw [committed_of_resolveIds_error hrun]
        exact h.committed
  write _ _ _ h := SoundAt.writeFileRow_exits hinj h.1 h.2

end Sound

/-! ### Runs -/

/-- One step of a run in which no item that raised is followed by another: an item whose statements fail as any script
says and that returns all the same, or an item that is the last one of its process — it raised, or the process was killed
in the middle of it, and what is left is a prefix of its statements — before the process is started again. -/
inductive CrashStep (env : Env) : World → World → Prop where
  | item (source : Source) (workers : Workers) (item : WorkItem) (w : World) (script : List (Option Fault))
      (reply : Option TagEditResult) (h : (dispatch env source workers item (scripted w script)).1 = .ok reply) :
      CrashStep env w (workItem env source workers item (scripted w script)).2
  | lost (source : Source) (workers : Workers) (item : WorkItem) (w : World) (script : List (Option Fault)) :
      CrashStep env w (Worker.restart (workItem env source workers item (scripted w script)).2)

/-- A world that such a run reaches from an empty catalog. -/
def CrashRun (env : Env) (w : World) : Prop := ∃ t, ReflTransGen (CrashStep env) (opened Db.empty t) w

variable {env : Env} {w w' : World}

/-- **One step.** -/
theorem SoundAt.crashStep (hinj : FingerprintInjective env) (h : SoundAt env w) (hstep : CrashStep env w w') :
    SoundAt env w' := by
  cases hstep with
  | item source workers item _ script reply hreturned =>
      have hexits := (durable_sound hinj).dispatch source workers item (scripted w script) h
      rw [workItem_world]
      rcases hrun : dispatch env source workers item (scripted w script) with ⟨r, w'⟩
      rw [hrun] at hreturned hexits
      cases hreturned
      exact hexits
  | lost source workers item _ script =>
      have hexits := (durable_sound hinj).dispatch source workers item (scripted w script) h
      rw [workItem_world, Worker.restart, opened_eq]
      rcases hrun : dispatch env source workers item (scripted w script) with ⟨r, w'⟩
      rw [hrun] at hexits
      cases r with
      | ok reply => exact sound_opened hexits.committed
      | error e => exact sound_opened hexits

/-- **The invariant along a run.** -/
theorem soundAt_of_crashRun (hinj : FingerprintInjective env) (h : CrashRun env w) : SoundAt env w := by
  obtain ⟨t, hrun⟩ := h
  induction hrun with
  | refl =>
      rw [opened_eq]
      exact sound_opened (dbInv_empty env)
  | tail _ hstep ih => exact ih.crashStep hinj hstep

/-- **Runs with a restart after every raise are coherent.**  Whatever statements fail, and wherever a process is killed: in
every world that the run reaches the caches hold exactly the rows of the seven tables, and every file, on the connection and
on disk, is under its own names. -/
theorem crashSafe_of_crashRun (hinj : FingerprintInjective env) (h : CrashRun env w) :
    CachesCoherent w ∧ UnderOwnNames w.conn.working ∧ UnderOwnNames w.conn.committed :=
  have hsound := soundAt_of_crashRun hinj h
  ⟨hsound.coherent, hsound.working.underOwnNames, hsound.committed.underOwnNames⟩

/-- The item that leaves a stale entry (`staleWorld`), followed by a restart, and then the recording once more. -/
theorem crashSafe_of_crashRun_stale :
    ∃ w, w = bucketItem (.catalog earlierKey) [] (Worker.restart staleWorld) ∧ w.conn.committed.files.rows.length = 1 ∧
      CachesCoherent w ∧ UnderOwnNames w.conn.working ∧ UnderOwnNames w.conn.committed :=
  ⟨_, rfl, by decide +kernel, crashSafe_of_crashRun fingerprintInjective_oneTopicEnv
    ⟨0, (ReflTransGen.single (CrashStep.lost _ _ _ _ siteFails)).tail
      (CrashStep.item _ _ _ _ [] none (by decide +kernel))⟩⟩

end McapCatalog.Builder
