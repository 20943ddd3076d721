import McapCatalog.CrashRuns
import McapCatalog.EventPath
import McapCatalog.Library.TwoRuns

/-!
# A source that has settled

A store changes while the builder runs, and then it stops changing.  From that moment on an item of the worker does what it
would do over a source that never changes.

* `atMoment` — the answers of one moment, at every moment; `SettledFrom` — they are those of every later moment;
* `SameSince` — two runs in the same world, from that moment on; a call that does not ask the source is `Alike` itself;
* `alike_catalogObject`, `alike_fullReconcile` — the two paths, with the source and with its frozen answers;
* `dispatch_settled` — **so one item leaves the same.**
-/

namespace McapCatalog.Builder

open McapCatalog.PyText McapCatalog.PyError McapCatalog.KeyParse McapCatalog.Storage
open McapCatalog.Tables McapCatalog.RowidTable
open McapCatalog.Connection McapCatalog.CatalogDb McapCatalog.Reconcile McapCatalog.Worker
open McapCatalog.SurvivingState McapCatalog.SurvivingState.Comp

/-- What the source answers at the moment `t`, at every moment. -/
def atMoment (source : Source) (t : ℕ) : Source where
  stat _ := source.stat t
  openSummary _ := source.openSummary t
  listAll _ := source.listAll t
  eventKey := source.eventKey
  intendedKey _ := source.intendedKey t
  waitForStable := source.waitForStable

theorem unchanging_atMoment (source : Source) (t : ℕ) : (atMoment source t).Unchanging :=
  ⟨fun _ _ => rfl, fun _ _ => rfl, fun _ _ => rfl, fun _ _ => rfl⟩

/-- From the moment `t₀` on the source answers as at that moment. -/
structure SettledFrom (source : Source) (t₀ : ℕ) : Prop where
  stat : ∀ t, t₀ ≤ t → source.stat t = source.stat t₀
  openSummary : ∀ t, t₀ ≤ t → source.openSummary t = source.openSummary t₀
  listAll : ∀ t, t₀ ≤ t → source.listAll t = source.listAll t₀
  intendedKey : ∀ t, t₀ ≤ t → source.intendedKey t = source.intendedKey t₀

theorem SettledFrom.later {source : Source} {t₀ t : ℕ} (h : SettledFrom source t₀) (ht : t₀ ≤ t) : SettledFrom source t where
  stat t' ht' := (h.stat t' (ht.trans ht')).trans (h.stat t ht).symm
  openSummary t' ht' := (h.openSummary t' (ht.trans ht')).trans (h.openSummary t ht).symm
  listAll t' ht' := (h.listAll t' (ht.trans ht')).trans (h.listAll t ht).symm
  intendedKey t' ht' := (h.intendedKey t' (ht.trans ht')).trans (h.intendedKey t ht).symm

/-- The answers of a later moment are the same. -/
theorem SettledFrom.atMoment_eq {source : Source} {t₀ t : ℕ} (h : SettledFrom source t₀) (ht : t₀ ≤ t) :
    atMoment source t = atMoment source t₀ := by
  rw [atMoment, atMoment, h.stat t ht, h.openSummary t ht, h.listAll t ht, h.intendedKey t ht]

/-- The same world, at the moment `t₀` or later. -/
def SameSince (t₀ : ℕ) (w w' : World) : Prop := w = w' ∧ t₀ ≤ w.clock

section Alike

variable {env : Env} {source : Source} {t₀ : ℕ} {α β : Type}

/-- A call that does not ask the source. -/
theorem alike_self {m : Py α} (hm : Keeps (fun _ _ _ => True) t₀ m fun _ => True) : Alike (SameSince t₀) m m := by
  rintro w _ ⟨rfl, hw⟩
  exact ⟨rfl, rfl, (hm.after ⟨trivial, hw⟩).since⟩

/-- A reading of the clock: what follows happens later. -/
theorem alike_tickThen {f f' : ℕ → Py α} (h : ∀ t, t₀ ≤ t → Alike (SameSince t₀) (f t) (f' t)) :
    Alike (SameSince t₀) (tick >>= f) (tick >>= f') := by
  rintro w _ ⟨rfl, hw⟩
  rw [bind_of_ok (tick_apply w), bind_of_ok (tick_apply w)]
  exact h w.clock hw w.tickClock w.tickClock ⟨rfl, hw.trans (Nat.le_succ _)⟩

theorem alike_ask {answer answer' : ℕ → Except PyErr α} (h : ∀ t, t₀ ≤ t → answer t = answer' t) :
    Alike (SameSince t₀) (ask answer) (ask answer') := by
  refine alike_tickThen fun t ht => ?_
  rw [h t ht]
  cases answer' t with
  | ok a => exact alike_pure a
  | error e => exact alike_raise e

theorem SettledFrom.readSummary (h : SettledFrom source t₀) {t : ℕ} (ht : t₀ ≤ t) (t' : ℕ) (key : PyStr) (size : ℤ) :
    source.readSummary t key size = (atMoment source t₀).readSummary t' key size := by
  rw [Source.readSummary, Source.readSummary, h.openSummary t ht]
  rfl

theorem SettledFrom.extract (h : SettledFrom source t₀) (job : Job) {openAt statAt : ℕ} (hopen : t₀ ≤ openAt)
    (hstat : t₀ ≤ statAt) : job.extract source openAt statAt = job.extract (atMoment source t₀) openAt statAt := by
  rw [Job.extract, Job.extract, extractSummary, extractSummary, h.readSummary hopen openAt, h.stat statAt hstat]
  rfl

theorem SettledFrom.alike_resolveKeyDims (h : SettledFrom source t₀) (key : PyStr) :
    Alike (SameSince t₀) (resolveKeyDims key source) (resolveKeyDims key (atMoment source t₀)) := by
  refine alike_tickThen fun t ht => ?_
  rw [h.intendedKey t ht]
  exact alike_pure _

theorem alike_applyExtract (ex : Extract) : Alike (SameSince t₀) (applyExtract env ex) (applyExtract env ex) :=
  alike_self (EventPath.cataloging_any.keeps_applyExtract ex)

theorem SettledFrom.alike_catalogWithStat (h : SettledFrom source t₀) (key : PyStr) (stat : Stat) :
    Alike (SameSince t₀) (catalogWithStat env key source stat) (catalogWithStat env key (atMoment source t₀) stat) := by
  refine (h.alike_resolveKeyDims key).bind fun trusted => ?_
  cases trusted with
  | none => exact alike_self (EventPath.cataloging_any.keeps_failed _ _)
  | some trusted =>
      refine (alike_self (EventPath.cataloging_any.keeps_resolveIds _)).bind fun ids => ?_
      refine (alike_self (keeps_query EventPath.cataloging_any.rollBack _ _)).bind fun existing => ?_
      split
      · exact alike_pure _
      · refine (alike_ask fun t ht => h.readSummary ht t key stat.size).attempt.bind fun r => ?_
        cases r with
        | error e =>
            exact alike_self ((EventPath.cataloging_any.keeps_quarantineExisting _ _ _ _).bind fun _ _ =>
              keeps_pure (Q := fun _ => True) trivial)
        | ok summary => exact alike_self (EventPath.cataloging_any.keeps_writeFileRow _ _)

/-- **`catalog_object`.** -/
theorem SettledFrom.alike_catalogObject (h : SettledFrom source t₀) (key : PyStr) :
    Alike (SameSince t₀) (catalogObject env key source none) (catalogObject env key (atMoment source t₀) none) := by
  refine (alike_ask fun t ht => congrFun (h.stat t ht) key).bind fun found => ?_
  cases found with
  | none => exact alike_pure _
  | some stat => exact h.alike_catalogWithStat key stat

theorem SettledFrom.alike_classify (h : SettledFrom source t₀) (stored : FileKey → Option PyStr) (scan : Scan)
    (lst : Listing) :
    Alike (SameSince t₀) (classify env source stored scan lst) (classify env (atMoment source t₀) stored scan lst) := by
  refine (h.alike_resolveKeyDims lst.key).bind fun trusted => ?_
  cases trusted with
  | none => exact alike_self (EventPath.cataloging_any.keeps_failed _ _)
  | some trusted =>
      refine alike_look fun w w' hw => ?_
      rw [hw.1]
      dsimp only
      split
      · exact alike_pure _
      · exact alike_pure _

theorem SettledFrom.alike_readAndApply (h : SettledFrom source t₀) (workers : Workers) (jobs : List Job) (tally : Tally) :
    Alike (SameSince t₀) (readAndApply env source workers jobs tally)
      (readAndApply env (atMoment source t₀) workers jobs tally) := by
  have hcount : ∀ tally ex, Alike (SameSince t₀) (applyAndCount env tally ex) (applyAndCount env tally ex) :=
    fun tally ex => (alike_applyExtract ex).bind fun _ => alike_pure _
  have hone : Alike (SameSince t₀) (foldEach (extractAndApply env source) tally jobs)
      (foldEach (extractAndApply env (atMoment source t₀)) tally jobs) := by
    refine Alike.foldEach (fun tally job => ?_) jobs tally
    refine alike_tickThen fun openAt hopen => alike_tickThen fun statAt hstat => ?_
    rw [h.extract job hopen hstat]
    exact hcount _ _
  cases workers with
  | one => exact hone
  | pool run =>
      rw [readAndApply, readAndApply]
      split
      · refine alike_tickThen fun start hstart => Alike.foldEach (fun tally c => ?_) _ tally
        rw [applyCompleted, applyCompleted, h.extract _ (hstart.trans (Nat.le_add_right _ _))
          ((hstart.trans (Nat.le_add_right _ _)).trans (Nat.le_add_right _ _))]
        exact hcount _ _
      · exact hone

/-- **`full_reconcile`.** -/
theorem SettledFrom.alike_fullReconcile (h : SettledFrom source t₀) (workers : Workers) :
    Alike (SameSince t₀) (fullReconcile env source workers) (fullReconcile env (atMoment source t₀) workers) := by
  have hany := EventPath.cataloging_any
  refine (alike_ask h.listAll).bind fun listings => ?_
  refine (alike_self (keeps_query hany.rollBack _ _)).bind fun stored => ?_
  refine (Alike.foldEach (fun scan lst => h.alike_classify stored scan lst) listings _).bind fun scan => ?_
  refine (h.alike_readAndApply workers _ _).bind fun tally => alike_look fun w w' hw => ?_
  rw [hw.1]
  refine (alike_self (keeps_query hany.rollBack _ _)).bind fun rows => ?_
  refine (Alike.foldEach (fun tally row => alike_self (hany.keeps_sweepRow _ tally row)) rows tally).bind fun tally => ?_
  refine (alike_self hany.keeps_commit).bind fun _ => ?_
  exact (alike_self (hany.keeps_recordBuild (fun _ _ _ _ _ _ _ _ _ => trivial) _ _ _)).bind fun _ => alike_pure _

end Alike

/-- **One item of the worker**, from the moment on from which its source answers the same. -/
theorem dispatch_settled (env : Env) {source : Source} {t₀ : ℕ} (h : SettledFrom source t₀) (workers : Workers)
    (item : WorkItem) {w : World} (hw : t₀ ≤ w.clock) :
    dispatch env source workers item w = dispatch env (atMoment source t₀) workers item w := by
  have hsame : ∀ {m m' : Py (Option TagEditResult)}, Alike (SameSince t₀) m m' → m w = m' w := by
    intro m m' halike
    obtain ⟨hexit, hworld, _⟩ := halike w w ⟨rfl, hw⟩
    exact Prod.ext hexit hworld
  cases item with
  | catalog path =>
      refine hsame (alike_tickThen fun t _ => ?_)
      show Alike (SameSince t₀) (if source.waitForStable t path then _ else _) (if source.waitForStable t path then _ else _)
      split
      · exact (h.alike_catalogObject _).bind fun _ => alike_pure _
      · exact alike_pure _
  | rescan => exact hsame ((h.alike_fullReconcile workers).bind fun _ => alike_pure _)
  | delete path => rfl
  | stop => rfl
  | tagEdit edit => rfl

end McapCatalog.Builder
