import McapCatalog.Coherence
import McapCatalog.ReconcileView
import McapCatalog.Convergence
import McapCatalog.PathsAgree

/-!
# Reconciles from any reached state

`fullReconcile_from` for a writer in the middle of its life: its caches are coherent, and a failed item may have left
uncommitted changes behind.

* `viewing_of_coherent` — a reached state with coherent caches is an opened catalog, up to what is committed;
* `fullReconcile_reached` — **a reconcile from such a state** raises, or returns and has reconciled;
* `Catalogable`, `Fate`, `fate_of_job` — which objects are written, and what becomes of the others.
-/

namespace McapCatalog.Builder

open McapCatalog.PyText McapCatalog.PyError McapCatalog.KeyParse McapCatalog.McapSummary McapCatalog.Storage
open McapCatalog.Tables McapCatalog.RowidTable McapCatalog.KeyedRows
open McapCatalog.Connection McapCatalog.CatalogDb McapCatalog.Reconcile McapCatalog.Worker McapCatalog.Runs

/-! ### Reached states -/

section Reaching

variable {env : Env} {source : Source} {w : World}

/-- Coherent caches are the dictionaries of the seven tables. -/
theorem caches_of_coherent (hcoherent : CachesCoherent w) : w.caches = Caches.of w.conn.working := by
  obtain ⟨h1, h2, h3, h4, h5, h6, h7⟩ := hcoherent
  rcases w with ⟨conn, ⟨c, s, r, x, t, sc, ts⟩, clock⟩
  rw [indexesTable_iff] at h1 h2 h3 h4 h5 h6 h7
  simp only at h1 h2 h3 h4 h5 h6 h7
  rw [h1, h2, h3, h4, h5, h6, h7]
  rfl

theorem viewing_of_coherent (hworld : WorldInv env w) (hcoherent : CachesCoherent w) :
    w = viewing w.conn.committed w.conn.working w.clock := by
  rw [Builder.viewing, ← caches_of_coherent hcoherent]
  exact (scripted_of_quiet hworld.quiet).symm

/-- **The full reconcile of an unchanging source**, from a reached state with coherent caches. -/
theorem fullReconcile_reached (hinj : FingerprintInjective env) (hs : source.Unchanging) (hreached : Reached env w)
    (hcoherent : CachesCoherent w) {listings : List Listing} (hlist : source.listAll 0 = .ok listings) (workers : Workers) :
    (Blocked source (view w.conn.working) listings ∧ ∃ e w', fullReconcile env source workers w = (.error e, w')) ∨
      ∃ (results : List (CatalogResult × Effect)) (db' : Db) (t' : ℕ),
        fullReconcile env source workers w =
          (.ok { tallied (triaged source (view w.conn.working) listings Tally.zero) results with
            deleted := (w.conn.working.files.rows.filter fun r => !isListed source listings w.conn.working r.key).length },
            viewing db' db' t') ∧
        Reconciled env source listings (appliedOrder workers (jobsOf source (view w.conn.working) listings)) results
          w.conn.working db' := by
  have hworld := hreached.worldInv hinj
  have hrun := fullReconcile_from hinj hs hworld.working hlist workers w.conn.committed w.clock
  rw [← viewing_of_coherent hworld hcoherent] at hrun
  exact hrun

/-- An operation that returned from a freshly opened catalog leaves coherent caches. -/
theorem coherent_of_refines {α : Type} {db : Db} {t : ℕ} {m : Py α} {outcome : Except PyErr (α × Effect)}
    (h : Refines env db t m outcome) (hok : (m (viewing db db t)).1.toOption.isSome = true) :
    CachesCoherent (m (viewing db db t)).2 := by
  cases outcome with
  | error e =>
      obtain ⟨w', hrun⟩ := h
      rw [hrun] at hok
      cases hok
  | ok result =>
      obtain ⟨db', t', hrun, _⟩ := h
      rw [hrun]
      exact cachesCoherent_of_eq rfl

end Reaching

/-! ### What becomes of an object -/

section Fates

variable {source : Source} {listings : List Listing} {c : Logical}

/-- The object can be cataloged: its key resolves, it can be read, and its transaction raises nothing. -/
def Catalogable (source : Source) (lst : Listing) : Prop :=
  ∃ dims effKey summary, resolution source lst.key = some (dims, effKey) ∧
    source.readSummary 0 lst.key lst.stat.size = .ok summary ∧ transactionError true ⟨dims, effKey, lst.stat, summary⟩ = none

/-- What becomes of a job: its object is written, it fails, or it is gone. -/
inductive Fate (source : Source) (job : Job) : CatalogResult × Effect → Prop where
  | written {summary : FileSummary} (read : source.readSummary 0 job.key job.stat.size = .ok summary)
      (stored : transactionError true ⟨job.dims, job.effKey, job.stat, summary⟩ = none) :
      Fate source job (⟨.cataloged, []⟩, .write ⟨job.dims, job.effKey, job.stat, summary⟩)
  | failed {detail text : PyStr} (there : ¬Gone source job.key job.stat)
      (broken : ∀ summary, source.readSummary 0 job.key job.stat.size = .ok summary →
        transactionError true ⟨job.dims, job.effKey, job.stat, summary⟩ ≠ none) :
      Fate source job (⟨.failed, detail⟩, .quarantine job.dims job.effKey text)
  | vanished (gone : Gone source job.key job.stat) : Fate source job (⟨.failed, py "vanished"⟩, .nothing)

theorem fate_of_job {job : Job} {r : CatalogResult × Effect} (h : effectOf (extracted source job) = .ok r) :
    Fate source job r := by
  rw [effectOf_extracted] at h
  cases hread : source.readSummary 0 job.key job.stat.size with
  | ok summary =>
      rw [hread] at h
      simp only at h
      split at h
      · cases h
      · rcases writeEffect_eq_ok h with ⟨hstored, rfl⟩ | ⟨e, herror, rfl⟩
        · exact .written hread hstored
        · refine .failed (fun hgone => ?_) (fun summary' hread' hstored => ?_)
          · obtain ⟨⟨e', he'⟩, _⟩ := hgone
            rw [hread] at he'
            cases he'
          · rw [hread] at hread'
            cases hread'
            rw [hstored] at herror
            cases herror
  | error e =>
      rw [hread] at h
      simp only at h
      split at h
      · rename_i hgone
        cases h
        exact .vanished ⟨⟨e, hread⟩, hgone⟩
      · rename_i hthere
        rw [← (unlessError_eq_ok h).2]
        refine .failed (fun hgone => hthere hgone.2) (fun summary hread' => ?_)
        rw [hread] at hread'
        cases hread'

theorem Fate.catalogable_iff {job : Job} {r : CatalogResult × Effect} (h : Fate source job r) {lst : Listing}
    (hkey : lst.key = job.key) (hstat : lst.stat = job.stat)
    (hres : resolution source lst.key = some (job.dims, job.effKey)) :
    Catalogable source lst ↔ ∃ written, r.2 = .write written := by
  have hwhole : Catalogable source lst ↔ ∃ summary, source.readSummary 0 job.key job.stat.size = .ok summary ∧
      transactionError true ⟨job.dims, job.effKey, job.stat, summary⟩ = none := by
    rw [Catalogable, hres, hkey, hstat]
    constructor
    · rintro ⟨dims, effKey, summary, hsome, hread, hstored⟩
      cases hsome
      exact ⟨summary, hread, hstored⟩
    · rintro ⟨summary, hread, hstored⟩
      exact ⟨_, _, summary, rfl, hread, hstored⟩
  rw [hwhole]
  cases h with
  | written hread hstored => exact iff_of_true ⟨_, hread, hstored⟩ ⟨_, rfl⟩
  | failed _ hbroken =>
      refine iff_of_false ?_ ?_
      · rintro ⟨summary, hread, hstored⟩
        exact hbroken summary hread hstored
      · rintro ⟨written, hwrite⟩
        cases hwrite
  | vanished hgone =>
      obtain ⟨⟨e, herror⟩, _⟩ := hgone
      refine iff_of_false ?_ ?_
      · rintro ⟨summary, hread, _⟩
        rw [herror] at hread
        cases hread
      · rintro ⟨written, hwrite⟩
        cases hwrite

/-- The effects of a reconcile are those of unparseable keys and those its jobs come to. -/
theorem mem_effectsOf {env : Env} {order : List Job} {results : List (CatalogResult × Effect)} {db db' : Db}
    (h : Reconciled env source listings order results db db') {e : Effect} :
    e ∈ effectsOf source (view db) listings results ↔
      (∃ lst ∈ listings, resolution source lst.key = none ∧ e = .failure lst.key (py "unparseable key")) ∨
        ∃ job ∈ jobsOf source (view db) listings, ∃ r, effectOf (extracted source job) = .ok r ∧ r.2 = e := by
  rw [effectsOf, List.mem_append]
  refine or_congr ⟨mem_unparseableOf, ?_⟩ ⟨?_, ?_⟩
  · rintro ⟨lst, hlst, hres, rfl⟩
    exact List.mem_filterMap.mpr ⟨lst, hlst, by rw [triage, hres]; rfl⟩
  · intro he
    obtain ⟨r, hr, rfl⟩ := List.mem_map.mp he
    obtain ⟨ex, hex, hout⟩ := exists_right_of_mem (List.Forall₂.flip h.come) hr
    obtain ⟨job, hjob, rfl⟩ := List.mem_map.mp hex
    exact ⟨job, h.jobs.mem_iff.mp hjob, r, hout, rfl⟩
  · rintro ⟨job, hjob, r, hout, rfl⟩
    obtain ⟨r', hr', hout'⟩ := exists_right_of_mem h.come (List.mem_map_of_mem (h.jobs.mem_iff.mpr hjob))
    rw [hout] at hout'
    cases hout'
    exact List.mem_map_of_mem hr'

end Fates

end McapCatalog.Builder
