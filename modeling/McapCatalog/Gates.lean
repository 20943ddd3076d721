import McapCatalog.Returning

/-!
# Conditions on the calls inside an operation

An operation of the builder reaches `_resolve_ids` and `_write_file_row` from five places.  A condition on each of these
calls is followed through the operation to the states from which they are made.

* `Gate` — one condition for each of the two calls; `GatedExtract`, ..., `GatedItem` — the condition through each operation;
* `Passes` — a property that both calls keep under their condition, and every other statement without one;
* `Passes.catalogObject`, `Passes.fullReconcile`, `Passes.call`, `Passes.workItem` — **so do the operations**;
* `OperationRun`, `Passes.run` — and so does a run of operations.
-/

namespace McapCatalog.Builder

open McapCatalog.PyText McapCatalog.PyError McapCatalog.KeyParse McapCatalog.Storage
open McapCatalog.Tables McapCatalog.RowidTable
open McapCatalog.Connection McapCatalog.CatalogDb McapCatalog.Reconcile McapCatalog.Worker McapCatalog.Runs
open McapCatalog.SurvivingState McapCatalog.SurvivingState.Comp
open Relation

/-- A condition on the calls of `_resolve_ids`, and one on those of `_write_file_row`. -/
structure Gate where
  ids : Dims → World → Prop
  write : Ids → Written → World → Prop

/-- The conditions, through `apply_extract`. -/
def GatedExtract (G : Gate) (ex : Extract) (w : World) : Prop :=
  match ex.outcome, ex.dims with
  | .error _, some dims => G.ids dims w
  | .ready summary, some dims =>
    G.ids dims w ∧ After (resolveIds dims) (fun ids => G.write ids ⟨dims, ex.effKey, ex.stat, summary⟩) w
  | _, _ => True

/-- ... through `catalog_object` from the moment the fingerprint is known. -/
def GatedCatalog (G : Gate) (key : PyStr) (source : Source) (stat : Stat) (w : World) : Prop :=
  ∀ dims effKey, trustedDims (source.intendedKey w.clock key) key = some (dims, effKey) →
    G.ids dims w.tickClock ∧
      After (resolveIds dims) (fun ids =>
        After (query (compositeParams dims) fun db => (db.files.find (ids.key dims)).map fun r => r.val.etag)
          fun existing w => existing ≠ some stat.etag →
            ∀ summary, source.readSummary w.clock key stat.size = .ok summary →
              G.write ids ⟨dims, effKey, stat, summary⟩ w.tickClock) w.tickClock

/-- ... through `catalog_object` without a fingerprint. -/
def GatedObject (G : Gate) (key : PyStr) (source : Source) (w : World) : Prop :=
  ∀ stat, source.stat w.clock key = .ok (some stat) → GatedCatalog G key source stat w.tickClock

/-- ... through the read and apply phases of a reconcile. -/
def GatedReads (env : Env) (G : Gate) (source : Source) (workers : Workers) (jobs : List Job) (tally : Tally)
    (w : World) : Prop :=
  let oneByOne := Along (extractAndApply env source)
    (fun job w => GatedExtract G (job.extract source w.clock (w.clock + 1)) w.tickClock.tickClock) jobs tally w
  match workers with
  | .one => oneByOne
  | .pool run =>
    if 1 < jobs.length then
      Along (applyCompleted env source jobs w.clock)
        (fun c => GatedExtract G ((jobs.get c.job).extract source (w.clock + c.openAfter)
          (w.clock + c.openAfter + c.statAfter))) (run jobs.length).completed tally w.tickClock
    else oneByOne

/-- ... through `full_reconcile`. -/
def GatedReconcile (env : Env) (G : Gate) (source : Source) (workers : Workers) (w : World) : Prop :=
  ∀ listings, source.listAll w.clock = .ok listings →
    After (query [] fun db key => (db.files.find key).map fun r => r.val.etag) (fun stored =>
      After (foldEach (classify env source stored) ⟨fun _ => none, [], Tally.zero⟩ listings) fun scan =>
        GatedReads env G source workers scan.toExtract scan.tally) w.tickClock

/-- ... through one call on the catalog. -/
def GatedCall (env : Env) (G : Gate) (c : Call) (w : World) : Prop :=
  match c with
  | .catalogObject key source none => GatedObject G key source w
  | .catalogObject key source (some stat) => GatedCatalog G key source stat w
  | .applyExtract ex => GatedExtract G ex w
  | .fullReconcile source workers => GatedReconcile env G source workers w
  | _ => True

/-- ... through one item of the worker: deletions and tag edits make neither call. -/
def GatedItem (env : Env) (G : Gate) (source : Source) (workers : Workers) (item : WorkItem) (w : World) : Prop :=
  match item with
  | .catalog path => source.waitForStable w.clock path = true → GatedObject G (source.eventKey path) source w.tickClock
  | .rescan => GatedReconcile env G source workers w
  | _ => True

/-- The property holds of the world. -/
abbrev HoldsAt (I : Property) (w : World) : Prop := I w.conn.committed w.conn.working w.caches

/-- **What the two calls keep under their conditions**, and every other statement without one: after `_resolve_ids` the
identity has the key of its ids, and `_write_file_row` writes under that key. -/
structure Passes (env : Env) (I : Property) (G : Gate) : Prop where
  tame : Tame I
  resolved : ∀ {w dims ids w'}, HoldsAt I w → resolveIds dims w = (.ok ids, w') →
    HoldsAt I w' ∧ fileKey w'.conn.working dims = some (ids.key dims)
  unresolved : ∀ {w dims e w'}, HoldsAt I w → G.ids dims w → resolveIds dims w = (.error e, w') → HoldsAt I w'
  write : ∀ {w ids written}, HoldsAt I w → fileKey w.conn.working written.dims = some (ids.key written.dims) →
    G.write ids written w → Leaves (HoldsAt I) (writeFileRow env ids written) w

theorem attempt_ask {α : Type} (answer : ℕ → Except PyErr α) (w : World) :
    attempt (ask answer) w = (.ok (answer w.clock), w.tickClock) := by
  rw [attempt_apply, ask, bind_of_ok (tick_apply w)]
  cases answer w.clock <;> rfl

/-- What a reading of the source that returns leaves. -/
theorem ask_of_ok {α : Type} {answer : ℕ → Except PyErr α} {w w' : World} {a : α} (h : ask answer w = (.ok a, w')) :
    answer w.clock = .ok a ∧ w' = w.tickClock := by
  have hatt : attempt (ask answer) w = (.ok (.ok a), w') := by rw [attempt_apply, h]
  rw [attempt_ask] at hatt
  obtain ⟨hanswer, hworld⟩ := Prod.ext_iff.mp hatt
  exact ⟨Except.ok.inj hanswer, hworld.symm⟩

/-- What a tame call leaves. -/
theorem Keeps.leaves {α : Type} {I : Property} {m : Py α} {Q : α → Prop} (hm : Keeps I 0 m Q) {w : World}
    (h : HoldsAt I w) : Leaves (HoldsAt I) m w :=
  (hm.after ⟨h, Nat.zero_le _⟩).inv

/-- ... and what it has left when it was run. -/
theorem Keeps.ran {α : Type} {I : Property} {m : Py α} {Q : α → Prop} (hm : Keeps I 0 m Q) {w w' : World}
    (h : HoldsAt I w) {out : Except PyErr α} (hrun : m w = (out, w')) : HoldsAt I w' := by
  have hleft := hm.leaves h
  rwa [Leaves, hrun] at hleft

theorem keeps_handleTagEdit {env : Env} {I : Property} {lo : ℕ} (hI : Tame I) (item : TagEditItem) :
    Keeps I lo (handleTagEdit env item) fun _ => True := by
  have hedit : Keeps I lo (applyTagEdit env item) fun _ => True := by
    refine keeps_tick.bind fun t _ => ?_
    split
    · exact keeps_pure trivial
    · refine (keeps_query hI.rollBack _ _).bind fun found _ => ?_
      cases found with
      | none => exact keeps_pure trivial
      | some fileId =>
          exact (keeps_updateTags hI fileId _ _).bind fun _ _ => (keeps_query hI.rollBack _ _).bind fun _ _ =>
            keeps_pure trivial
  refine hedit.attempt.bind fun r _ => ?_
  cases r with
  | ok result => exact keeps_pure trivial
  | error e => exact keeps_pure trivial

section Operations

variable {env : Env} {I : Property} {G : Gate} {w : World} {source : Source}

theorem leaves_ask {α : Type} (h : HoldsAt I w) (answer : ℕ → Except PyErr α) : Leaves (HoldsAt I) (ask answer) w := by
  show HoldsAt I (attempt (ask answer) w).2
  rw [attempt_ask]
  exact h

/-- What follows `_resolve_ids` starts with the identity's key. -/
theorem Passes.resolveIdsThen (hI : Passes env I G) (h : HoldsAt I w) {dims : Dims} (hgate : G.ids dims w) {α : Type}
    {f : Ids → Py α}
    (hf : After (resolveIds dims) (fun ids w' =>
      HoldsAt I w' → fileKey w'.conn.working dims = some (ids.key dims) → Leaves (HoldsAt I) (f ids) w') w) :
    Leaves (HoldsAt I) (resolveIds dims >>= f) w := by
  rcases hrun : resolveIds dims w with ⟨r, w₁⟩
  cases r with
  | ok ids =>
      obtain ⟨hholds, hkey⟩ := hI.resolved h hrun
      exact leaves_bind_of_ok hrun (hf ids w₁ hrun hholds hkey)
  | error e =>
      rw [Leaves, bind_of_error hrun]
      exact hI.unresolved h hgate hrun

theorem Passes.applyExtract (hI : Passes env I G) (h : HoldsAt I w) {ex : Extract} (hgate : GatedExtract G ex w) :
    Leaves (HoldsAt I) (applyExtract env ex) w := by
  have hT := hI.tame
  rw [GatedExtract] at hgate
  rw [Builder.applyExtract.eq_def]
  split
  · exact h
  · exact (keeps_applyUnparseable hT ex).leaves h
  · exact (keeps_applyUnparseable hT ex).leaves h
  · rename_i text dims houtcome hdims
    rw [houtcome, hdims] at hgate
    refine hI.resolveIdsThen h hgate fun ids w' _ hholds _ => ?_
    exact Keeps.leaves ((keeps_quarantineExisting hT _ _ _ _).bind fun _ _ => keeps_pure (Q := fun _ => True) trivial) hholds
  · rename_i summary dims houtcome hdims
    rw [houtcome, hdims] at hgate
    exact hI.resolveIdsThen h hgate.1 fun ids w' hrun hholds hkey => hI.write hholds hkey (hgate.2 ids w' hrun)

theorem Passes.catalogWithStat (hI : Passes env I G) (h : HoldsAt I w) {key : PyStr} {stat : Stat}
    (hgate : GatedCatalog G key source stat w) : Leaves (HoldsAt I) (catalogWithStat env key source stat) w := by
  have hT := hI.tame
  have hrun : resolveKeyDims key source w = (.ok (trustedDims (source.intendedKey w.clock key) key), w.tickClock) := rfl
  have htick : HoldsAt I w.tickClock := h
  refine leaves_bind_of_ok hrun ?_
  cases htrusted : trustedDims (source.intendedKey w.clock key) key with
  | none => exact (keeps_failed (Q := fun _ => True) hT _ _ trivial).leaves htick
  | some trusted =>
      obtain ⟨hids, hrest⟩ := hgate trusted.1 trusted.2 htrusted
      refine hI.resolveIdsThen htick hids fun ids w₁ hresolve hholds hkey => ?_
      refine ((keeps_query hT.rollBack _ _).leaves hholds).bind fun existing w₂ hquery hholds₂ => ?_
      have hworking := (query_of_ok hquery).2.1
      split
      · exact hholds₂
      · rename_i hnew
        have htick₂ : HoldsAt I w₂.tickClock := hholds₂
        refine leaves_bind_of_ok (attempt_ask _ w₂) ?_
        cases hread : source.readSummary w₂.clock key stat.size with
        | error e =>
            exact Keeps.leaves ((keeps_quarantineExisting hT _ _ _ _).bind fun _ _ =>
              keeps_pure (Q := fun _ => True) trivial) htick₂
        | ok summary =>
            refine hI.write htick₂ ?_ (hrest ids w₁ hresolve existing w₂ hquery hnew summary hread)
            show fileKey w₂.conn.working trusted.1 = some (ids.key trusted.1)
            rw [hworking]
            exact hkey

/-- **`catalog_object`.** -/
theorem Passes.catalogObject (hI : Passes env I G) (h : HoldsAt I w) {key : PyStr} (hgate : GatedObject G key source w) :
    Leaves (HoldsAt I) (catalogObject env key source none) w := by
  refine (leaves_ask h _).bind fun found w₁ hask hholds => ?_
  obtain ⟨hfound, rfl⟩ := ask_of_ok hask
  cases found with
  | none => exact hholds
  | some stat => exact hI.catalogWithStat hholds (hgate stat hfound)

theorem Passes.readAndApply (hI : Passes env I G) (h : HoldsAt I w) {workers : Workers} {jobs : List Job} {tally : Tally}
    (hgate : GatedReads env G source workers jobs tally w) :
    Leaves (HoldsAt I) (readAndApply env source workers jobs tally) w := by
  have hcount : ∀ {ex : Extract} {tally : Tally} {w : World}, HoldsAt I w → GatedExtract G ex w →
      Leaves (HoldsAt I) (applyAndCount env tally ex) w := fun h hgate =>
    (hI.applyExtract h hgate).bind fun _ _ _ hholds => hholds
  have hone : Along (extractAndApply env source)
      (fun job w => GatedExtract G (job.extract source w.clock (w.clock + 1)) w.tickClock.tickClock) jobs tally w →
      Leaves (HoldsAt I) (foldEach (extractAndApply env source) tally jobs) w :=
    leaves_foldEach (fun tally job w hw hC => leaves_bind_of_ok (tick_apply w)
      (leaves_bind_of_ok (tick_apply w.tickClock) (hcount (w := w.tickClock.tickClock) hw hC))) jobs tally w h
  cases workers with
  | one => exact hone hgate
  | pool run =>
      rw [GatedReads] at hgate
      rw [Reconcile.readAndApply]
      split
      · rename_i hmany
        rw [if_pos hmany] at hgate
        refine leaves_bind_of_ok (tick_apply w) ?_
        exact leaves_foldEach (f := applyCompleted env source jobs w.clock) (fun tally c w hw hC => hcount hw hC) _ tally
          w.tickClock h hgate
      · rename_i hfew
        rw [if_neg hfew] at hgate
        exact hone hgate

/-- **`full_reconcile`**: classification and sweep make neither call. -/
theorem Passes.fullReconcile (hI : Passes env I G) (h : HoldsAt I w) {workers : Workers}
    (hgate : GatedReconcile env G source workers w) : Leaves (HoldsAt I) (fullReconcile env source workers) w := by
  have hT := hI.tame
  refine (leaves_ask h _).bind fun listings w₁ hask hholds₁ => ?_
  obtain ⟨hlist, rfl⟩ := ask_of_ok hask
  refine ((keeps_query hT.rollBack _ _).leaves hholds₁).bind fun stored w₂ hquery hholds₂ => ?_
  have hclassify : Keeps I 0 (foldEach (classify env source stored) ⟨fun _ => none, [], Tally.zero⟩ listings)
      fun scan => ∀ job ∈ scan.toExtract, ListedJob source Set.univ w.clock job :=
    Keeps.foldEach (Q := fun lst => Fingerprinted source w.clock lst.key lst.stat)
      (fun _ _ hscan hlst => keeps_classify hT hscan (Set.mem_univ _) hlst) _ _
      (fun _ hlst => Or.inr ⟨listings, hlist, hlst⟩) fun _ hjob => absurd hjob List.not_mem_nil
  refine (hclassify.leaves hholds₂).bind fun scan w₃ hscan hholds₃ => ?_
  refine (hI.readAndApply hholds₃ (hgate listings hlist stored w₂ hquery scan w₃ hscan)).bind
    fun tally w₄ _ hholds₄ => ?_
  refine leaves_bind_of_ok (look_apply w₄) (Keeps.leaves (Q := fun _ => True) ?_ hholds₄)
  exact (keeps_query hT.rollBack _ _).bind fun rows _ =>
    (Keeps.foldEach (Q := fun _ => True) (R := fun _ => True) (fun _ _ _ _ => keeps_sweepRow hT _ _ _) _ _
      (fun _ _ => trivial) trivial).bind fun _ _ => (keeps_commit hT).bind fun _ _ =>
        (keeps_recordBuild hT _ _ _).bind fun _ _ => keeps_pure (Q := fun _ => True) trivial

/-- **One item of the worker**, under any script of failing statements that meets the conditions. -/
theorem Passes.workItem (hI : Passes env I G) (h : HoldsAt I w) {workers : Workers} {item : WorkItem}
    (hgate : GatedItem env G source workers item w) : Leaves (HoldsAt I) (workItem env source workers item) w := by
  have hdispatch : Leaves (HoldsAt I) (dispatch env source workers item) w := by
    cases item with
    | tagEdit edit => exact Keeps.leaves ((keeps_handleTagEdit hI.tame edit).bind fun _ _ =>
        keeps_pure (Q := fun _ => True) trivial) h
    | stop => exact h
    | catalog path =>
        have htick : HoldsAt I w.tickClock := h
        refine leaves_bind_of_ok (tick_apply w) ?_
        split
        · rename_i hstable
          exact (hI.catalogObject htick (hgate hstable)).bind fun _ _ _ hholds => hholds
        · exact h
    | delete path => exact Keeps.leaves ((keeps_deleteByKey hI.tame _).bind fun _ _ =>
        keeps_pure (Q := fun _ => True) trivial) h
    | rescan => exact (hI.fullReconcile h hgate).bind fun _ _ _ hholds => hholds
  rw [Leaves, workItem_world]
  exact hdispatch

/-- **One call on the catalog**, the opening of it apart. -/
theorem Passes.call (hI : Passes env I G) (hopened : ∀ {db view caches}, I db view caches → I db db (Caches.of db))
    (h : HoldsAt I w) {c : Call} (hgate : GatedCall env G c w) : HoldsAt I (c.run env w) := by
  cases c with
  | catalogObject key source stat =>
      cases stat with
      | none => exact hI.catalogObject h hgate
      | some stat => exact hI.catalogWithStat h hgate
  | applyExtract ex => exact hI.applyExtract h hgate
  | deleteByKey key => exact (keeps_deleteByKey hI.tame key).leaves h
  | fullReconcile source workers => exact hI.fullReconcile h hgate
  | updateTags fileId setKv unsetKeys => exact (keeps_updateTags hI.tame fileId setKv unsetKeys).leaves h
  | restart =>
      rw [Call.run, Worker.restart, opened_eq]
      exact hopened h

end Operations

/-! ### Runs -/

/-- One operation of a run: a call on the catalog or an item of the worker, whose statements fail as any script says, from
a world where it meets the conditions. -/
inductive OperationStep (env : Env) (G : Gate) : World → World → Prop where
  | call (c : Call) (w : World) (script : List (Option Fault)) (h : GatedCall env G c (scripted w script)) :
      OperationStep env G w (c.run env (scripted w script))
  | item (source : Source) (workers : Workers) (item : WorkItem) (w : World) (script : List (Option Fault))
      (h : GatedItem env G source workers item (scripted w script)) :
      OperationStep env G w (workItem env source workers item (scripted w script)).2

/-- A world that a run of such operations reaches from an empty catalog. -/
def OperationRun (env : Env) (G : Gate) (w : World) : Prop :=
  ∃ t, ReflTransGen (OperationStep env G) (opened Db.empty t) w

/-- **A run of operations keeps it**, if an empty catalog has it and opening a catalog restores it. -/
theorem Passes.run {env : Env} {I : Property} {G : Gate} (hI : Passes env I G)
    (hopened : ∀ {db view caches}, I db view caches → I db db (Caches.of db))
    (hempty : I Db.empty Db.empty (Caches.of Db.empty)) {w : World} (h : OperationRun env G w) : HoldsAt I w := by
  obtain ⟨t, hrun⟩ := h
  induction hrun with
  | refl =>
      rw [opened_eq]
      exact hempty
  | @tail v _ _ hstep ih =>
      cases hstep with
      | call c _ script hgate => exact hI.call hopened (w := scripted v script) ih hgate
      | item source workers item _ script hgate => exact hI.workItem (w := scripted v script) ih hgate

end McapCatalog.Builder
