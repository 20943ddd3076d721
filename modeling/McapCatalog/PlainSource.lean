import McapCatalog.EventPath

/-!
# Sources whose objects carry no other key

What one item of the worker does to an identity, over any source that answers for the fingerprint of an object and finds no
key inside of one but its own.  An object is cataloged under the key of its event, if that is a Hive key; one that is not stable
yet, or is gone, is left alone.

* `Plain` — such a source;
* `catalog_unstable`, `catalog_missing`, `catalog_found` — the three ends of a catalog event;
* `Sits.catalogPlain`, `frame_plain` — the invariants, and the rows of other identities;
* `shows_missing`, `shows_found`, `shows_removed` — **what the identity shows afterwards**.
-/

namespace McapCatalog.EventPath

open McapCatalog.PyText McapCatalog.PyError McapCatalog.KeyParse McapCatalog.McapSummary McapCatalog.Storage
open McapCatalog.Tables McapCatalog.RowidTable McapCatalog.KeyedRows
open McapCatalog.Connection McapCatalog.CatalogDb McapCatalog.Builder McapCatalog.Reconcile McapCatalog.Worker McapCatalog.Runs
open McapCatalog.SurvivingState McapCatalog.SurvivingState.Comp

/-- A source without failing fingerprints, whose objects carry no keys but their own. -/
structure Plain (source : Source) : Prop where
  answers : ∀ t key, ∃ found, source.stat t key = .ok found
  truthful : ∀ t key, (source.intendedKey t key).getD key = key

section Items

variable {env : Env} {w : World} {source : Source} {workers : Workers} {payload : PyStr} {dims other : Dims} {st : Stat}

/-- A file that is not stable is left for later. -/
theorem catalog_unstable (env : Env) (workers : Workers) (h : source.waitForStable w.clock payload = false) :
    (workItem env source workers (.catalog payload) w).2 = w.tickClock := by
  rw [workItem_world, dispatch, bind_of_ok (tick_apply w), if_neg (by rw [h]; exact Bool.false_ne_true)]
  rfl

/-- A stable one is asked for. -/
theorem catalog_stable (env : Env) (workers : Workers) (h : source.waitForStable w.clock payload = true) :
    (workItem env source workers (.catalog payload) w).2 =
      (catalogObject env (source.eventKey payload) source none w.tickClock).2 := by
  rw [workItem_world, dispatch, bind_of_ok (tick_apply w), if_pos h, bind_apply]
  rcases catalogObject env (source.eventKey payload) source none w.tickClock with ⟨out, w'⟩
  cases out <;> rfl

/-- **One that is gone** is left alone. -/
theorem catalog_missing (env : Env) (workers : Workers) (h : source.waitForStable w.clock payload = true)
    (hgone : source.stat (w.clock + 1) (source.eventKey payload) = .ok none) :
    (workItem env source workers (.catalog payload) w).2 = w.tickClock.tickClock := by
  have hask : ask (fun t => source.stat t (source.eventKey payload)) w.tickClock = (.ok none, w.tickClock.tickClock) := by
    rw [← hgone]
    exact ask_apply (fun t => source.stat t (source.eventKey payload)) w.tickClock
  rw [catalog_stable env workers h, catalogObject]
  show ((ask (fun t => source.stat t (source.eventKey payload)) >>= _ : Py CatalogResult) w.tickClock).2 = _
  rw [bind_of_ok hask]
  rfl

/-- **One that is there** is cataloged. -/
theorem catalog_found (env : Env) (workers : Workers) (h : source.waitForStable w.clock payload = true)
    (hthere : source.stat (w.clock + 1) (source.eventKey payload) = .ok (some st)) :
    (workItem env source workers (.catalog payload) w).2 =
      (catalogObject env (source.eventKey payload) source (some st) w.tickClock.tickClock).2 := by
  have hask : ask (fun t => source.stat t (source.eventKey payload)) w.tickClock =
      (.ok (some st), w.tickClock.tickClock) := by
    rw [← hthere]
    exact ask_apply (fun t => source.stat t (source.eventKey payload)) w.tickClock
  rw [catalog_stable env workers h, catalogObject]
  show ((ask (fun t => source.stat t (source.eventKey payload)) >>= _ : Py CatalogResult) w.tickClock).2 = _
  rw [bind_of_ok hask]
  rfl

/-- The three ends of a catalog event. -/
theorem Plain.catalog_cases (hp : Plain source) (env : Env) (workers : Workers) (payload : PyStr) (w : World) :
    (workItem env source workers (.catalog payload) w).2 = w.tickClock ∨
      (workItem env source workers (.catalog payload) w).2 = w.tickClock.tickClock ∨
      ∃ st, source.stat (w.clock + 1) (source.eventKey payload) = .ok (some st) ∧
        (workItem env source workers (.catalog payload) w).2 =
          (catalogObject env (source.eventKey payload) source (some st) w.tickClock.tickClock).2 := by
  cases hstable : source.waitForStable w.clock payload with
  | false => exact Or.inl (catalog_unstable env workers hstable)
  | true =>
      obtain ⟨found, hfound⟩ := hp.answers (w.clock + 1) (source.eventKey payload)
      cases found with
      | none => exact Or.inr (Or.inl (catalog_missing env workers hstable hfound))
      | some st => exact Or.inr (Or.inr ⟨st, hfound, catalog_found env workers hstable hfound⟩)

/-- A key of such a source is what it resolves to. -/
theorem Plain.trusted (hp : Plain source) (t : ℕ) (key : PyStr) :
    trustedDims (source.intendedKey t key) key = trustedDims none key := by
  have hown : (source.intendedKey t key).getD key = Option.getD none key := hp.truthful t key
  rw [trustedDims, trustedDims, hown]

/-- What a key that can be stored resolves to is a Hive key. -/
theorem hiveKey_of_trusted {key effKey : PyStr} (hencodable : encodable key = true)
    (h : trustedDims none key = some (dims, effKey)) : HiveKey key dims := by
  obtain ⟨_, _, heff⟩ := (trustedDims_none_iff key dims effKey).mp h
  rw [heff] at h
  exact ⟨h, hencodable⟩

/-- The invariants are kept by a catalog event. -/
theorem Sits.catalogPlain (hinj : FingerprintInjective env) (h : Sits env w) (hp : Plain source)
    (hencodable : encodable (source.eventKey payload) = true) :
    Sits env (workItem env source workers (.catalog payload) (scripted w [])).2 := by
  have hdims : ∀ {t dims effKey}, trustedDims (source.intendedKey t (source.eventKey payload)) (source.eventKey payload) =
      some (dims, effKey) → bindError (nameParams dims) = none := by
    intro t dims effKey htrusted
    rw [hp.trusted] at htrusted
    exact (hiveKey_of_trusted hencodable htrusted).binds.1
  have hseated : HoldsAt (Seated ∅) (scripted w []) := h.seated
  have hsound : SoundAt env (scripted w []) := h.sound
  have hgate : GatedItem env resolving source workers (.catalog payload) (scripted w []) := by
    intro _ stat _ dims effKey htrusted
    have hticked : HoldsAt (Seated ∅) (scripted w []).tickClock.tickClock.tickClock := h.seated
    exact ⟨hticked.resolves rfl (hdims htrusted), fun _ _ _ _ _ _ _ _ _ => trivial⟩
  have hclear : ClearItem env source workers (.catalog payload) (scripted w []) := by
    intro _ stat _
    have hticked : SoundAt env (scripted w []).tickClock.tickClock := h.sound
    exact hticked.clearCatalog hinj rfl fun dims effKey htrusted => hdims htrusted
  exact ⟨(passes_seated env).workItem hseated hgate, hsound.workItem hinj hclear⟩

/-- A call that raises without an identity leaves the rows. -/
theorem etagOf_apart {before after : Db} {failKey : PyStr} (h : Elsewhere none failKey before after) (hbefore : Placed before)
    (hafter : Placed after) (d : Dims) : etagOf after d = etagOf before d := by
  have hnames : ∀ {db : Db}, Placed db → ∀ {r : Row FileKey FileCols}, r ∈ db.files.rows → db.namesOf r.key ≠ none := by
    intro db hdb r hr hnone
    rw [namesOf_fileKey (hdb.named r hr)] at hnone
    cases hnone
  have hrows : rowOf after d = rowOf before d := by
    apply Option.ext
    intro r
    rw [rowOf_placed hafter, rowOf_placed hbefore]
    exact ⟨fun hr => ⟨h.brought r hr.1 (hnames hafter hr.1), hr.2⟩, fun hr => ⟨h.kept r hr.1 (hnames hbefore hr.1), hr.2⟩⟩
  rw [etagOf, etagOf, hrows]

/-- An object whose key is no Hive key leaves the rows. -/
theorem etagOf_unparsed {key : PyStr} {found : Except PyErr (Option Stat)} {run : Except PyErr CatalogResult × World}
    {etag : Option PyStr} (h : CallEnded key found none w.conn run) (hsits : Sits env w) (hshows : Shows w other etag)
    {db : Db} (hdb : db = run.2.conn.committed ∨ db = run.2.conn.working) (hplaced : Placed db) : etagOf db other = etag := by
  cases hrun : run.1 with
  | error e =>
      obtain ⟨db₀, hdb₀, helsewhere⟩ := h.raised e hrun db hdb
      cases hdb₀ with
      | inl hcommitted =>
          rw [hcommitted] at helsewhere
          exact (etagOf_apart helsewhere hsits.seated.committed hplaced other).trans hshows.1
      | inr hworking =>
          rw [hworking] at helsewhere
          exact (etagOf_apart helsewhere hsits.seated.working hplaced other).trans hshows.2
  | ok result =>
      obtain ⟨exit, hexit, _⟩ := h.returned result hrun
      have hsynced : run.2.conn.committed = run.2.conn.working → db = run.2.conn.working := fun hsync => by
        rw [hsync, or_self] at hdb
        exact hdb
      cases exit with
      | cataloged =>
          obtain ⟨_, _, _, _, _, hown, _⟩ := hexit
          cases hown
      | skipped =>
          obtain ⟨_, hsync, hsame⟩ := hexit
          rw [hsynced hsync, hsame]
          exact hshows.2
      | broken =>
          obtain ⟨_, _, _, _, hown, _⟩ := hexit
          cases hown
      | vanished =>
          obtain ⟨_, _, hcommitted, hworking⟩ := hexit
          rw [hcommitted, hworking] at hdb
          rcases hdb with rfl | rfl
          · exact hshows.1
          · exact hshows.2
      | unparseable =>
          obtain ⟨_, _, _, hsync, now, hworking⟩ := hexit
          rw [hsynced hsync, hworking]
          exact hshows.2

/-- **The rows of other identities** stay through a catalog event. -/
theorem frame_plain (hinj : FingerprintInjective env) (h : Sits env w) (hp : Plain source)
    (hencodable : encodable (source.eventKey payload) = true) (hne : parseHiveKey (source.eventKey payload) ≠ some other)
    {etag : Option PyStr} (hshows : Shows w other etag) :
    Shows (workItem env source workers (.catalog payload) (scripted w [])).2 other etag := by
  have hafter : Sits env (workItem env source workers (.catalog payload) (scripted w [])).2 := h.catalogPlain hinj hp hencodable
  rcases hp.catalog_cases env workers payload (scripted w []) with hworld | hworld | ⟨st, _, hworld⟩
  · rw [hworld]
    exact hshows
  · rw [hworld]
    exact hshows
  · rw [hworld] at hafter ⊢
    have hticked : Sits env (scripted w []).tickClock.tickClock := ⟨h.seated, h.sound⟩
    have hended : CallEnded (source.eventKey payload) (.ok (some st)) _ (scripted w []).tickClock.tickClock.conn
        (catalogObject env (source.eventKey payload) source (some st) (scripted w []).tickClock.tickClock) :=
      catalogWithStat_ended hticked.seated st
    rw [hp.trusted] at hended
    cases htrusted : trustedDims none (source.eventKey payload) with
    | none =>
        rw [htrusted] at hended
        exact ⟨etagOf_unparsed hended hticked hshows (Or.inl rfl) hafter.seated.committed,
          etagOf_unparsed hended hticked hshows (Or.inr rfl) hafter.seated.working⟩
    | some own =>
        rw [htrusted] at hended
        have hother : other ≠ own.1 := by
          rintro rfl
          exact hne (hiveKey_of_trusted hencodable htrusted).parses
        exact ⟨etagOf_ended hended hticked hshows hother (Or.inl rfl) hafter.seated.committed,
          etagOf_ended hended hticked hshows hother (Or.inr rfl) hafter.seated.working⟩

/-- **A file that is gone**: nothing changes. -/
theorem shows_missing (hgone : source.stat (w.clock + 1) (source.eventKey payload) = .ok none) {etag : Option PyStr}
    (hshows : Shows w dims etag) : Shows (workItem env source workers (.catalog payload) (scripted w [])).2 dims etag := by
  cases hstable : source.waitForStable (scripted w []).clock payload with
  | false =>
      rw [catalog_unstable env workers hstable]
      exact hshows
  | true =>
      rw [catalog_missing env workers hstable hgone]
      exact hshows

/-- **A file that is stable and stays as it is**: the row of its identity has its etag. -/
theorem shows_found (hinj : FingerprintInjective env) (h : Sits env w) (hp : Plain source)
    (hkey : HiveKey (source.eventKey payload) dims) (hstable : source.waitForStable w.clock payload = true)
    {summary : FileSummary} (hthere : ∀ t, w.clock ≤ t → source.stat t (source.eventKey payload) = .ok (some st))
    (hread : ∀ t, w.clock ≤ t → source.readSummary t (source.eventKey payload) st.size = .ok summary)
    (hfits : transactionError true ⟨dims, source.eventKey payload, st, summary⟩ = none) :
    Shows (workItem env source workers (.catalog payload) (scripted w [])).2 dims (some st.etag) := by
  have hview : (scripted w []).tickClock.tickClock = viewing w.conn.committed w.conn.working (w.clock + 2) := by
    rw [h.sound.viewing]
    rfl
  have hspec := resolveIds_viewing h.sound.working.inv dims w.conn.committed (w.clock + 3)
  rw [hkey.binds.1] at hspec
  obtain ⟨ids, db', hresolve, honly, hfile⟩ := hspec
  obtain ⟨db'', t', hworld, hetag⟩ := catalogResolved_readable hinj (h.sound.working.inv.onlyDims honly) hkey hfile
    (hread (w.clock + 3) (by omega)) hfits
  have hstable' : source.waitForStable (scripted w []).clock payload = true := hstable
  have hfound : source.stat ((scripted w []).clock + 1) (source.eventKey payload) = .ok (some st) :=
    hthere _ (Nat.le_succ w.clock)
  rw [catalog_found env workers hstable' hfound, hview, catalogObject_apply, hp.trusted, hkey.trusted]
  dsimp only
  rw [show (viewing w.conn.committed w.conn.working (w.clock + 2)).tickClock =
    viewing w.conn.committed w.conn.working (w.clock + 3) from rfl, bind_of_ok hresolve, hworld]
  exact ⟨hetag, hetag⟩

/-- Time goes on. -/
theorem clock_plain (hp : Plain source) (env : Env) (workers : Workers) (payload : PyStr) (w : World) :
    w.clock ≤ (workItem env source workers (.catalog payload) w).2.clock := by
  rcases hp.catalog_cases env workers payload w with hworld | hworld | ⟨st, _, hworld⟩
  · rw [hworld]
    exact Nat.le_succ w.clock
  · rw [hworld]
    exact (Nat.le_succ w.clock).trans (Nat.le_succ _)
  · rw [hworld]
    have hkeeps : Builder.Keeps (fun _ _ _ => True) w.clock
        (catalogObject env (source.eventKey payload) source (some st)) fun _ => True :=
      cataloging_any.keeps_catalogObject _ _ _
    have hticked : w.clock ≤ w.tickClock.tickClock.clock := (Nat.le_succ w.clock).trans (Nat.le_succ _)
    exact (hkeeps.after ⟨trivial, hticked⟩).since

/-- A removed file, under whatever path its event has. -/
theorem delete_plain (env : Env) (source : Source) (workers : Workers) (payload : PyStr) (w : World) :
    (workItem env source workers (.delete payload) w).2 = (deleteByKey (source.eventKey payload) w).2 := by
  rw [workItem_world, dispatch, bind_apply]
  rcases deleteByKey (source.eventKey payload) w with ⟨out, w'⟩
  cases out <;> rfl

/-- **A removed file**: its identity has no row, and nothing else changes. -/
theorem shows_removed (h : Sits env w) (source : Source) (workers : Workers)
    (hkey : HiveKey (source.eventKey payload) dims) :
    Shows (workItem env source workers (.delete payload) (scripted w [])).2 dims none ∧
      ∀ other ≠ dims, ∀ etag, Shows w other etag →
        Shows (workItem env source workers (.delete payload) (scripted w [])).2 other etag := by
  rw [delete_plain, ← delete_world env (s3Source (fun _ => ∅) []) rfl workers]
  exact shows_deleted h hkey

/-- A removed file whose key does not parse. -/
theorem removed_unparsed (env : Env) (source : Source) (workers : Workers) (w : World)
    (hkey : parseHiveKey (source.eventKey payload) = none) : (workItem env source workers (.delete payload) w).2 = w := by
  rw [delete_plain, deleteByKey, hkey]
  rfl

theorem clock_removed (env : Env) (source : Source) (workers : Workers) (payload : PyStr) (w : World) :
    w.clock ≤ (workItem env source workers (.delete payload) w).2.clock := by
  rw [delete_plain, ← delete_world env (s3Source (fun _ => ∅) []) rfl workers]
  exact clock_delete env _ _ workers _ w

end Items

end McapCatalog.EventPath
