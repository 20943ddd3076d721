import McapCatalog.Coherence
import McapCatalog.ReconcileView

/-!
# A reconcile of a source that changes under it

What a full reconcile does to an opened catalog when no two questions to its source need agree.

* `AppliedAs`, `appliedAs_applyExtract` — **what applying an extract comes to**, with what it leaves alone in both exits;
* `Sighting`, `sightings`, `Scanned`, `triple_classify` — what the classification sees of the listed files;
* `Survives`, `triple_readAndApply` — **a property that survives each job survives the read and apply phases**, however
  the reads complete;
* `Ended`, `fullReconcile_ended` — **the three ways a reconcile ends**.
-/

namespace McapCatalog.Builder

open McapCatalog.PyText McapCatalog.PyError McapCatalog.KeyParse McapCatalog.McapSummary McapCatalog.Storage
open McapCatalog.Tables McapCatalog.RowidTable McapCatalog.KeyedRows
open McapCatalog.Connection McapCatalog.CatalogDb McapCatalog.Reconcile McapCatalog.Runs
open McapCatalog.SurvivingState McapCatalog.SurvivingState.Comp

/-- A failure was recorded under the key at the moment `t` or later. -/
def RecordedSince (env : Env) (t : ℕ) (db : Db) (key : PyStr) : Prop :=
  ∃ t' text, t ≤ t' ∧ db.catalogFailures.lookup key = some (env.timeNs t', text)

/-! ### What applying an extract comes to -/

section Applying

variable {env : Env} {db : Db} {dims : Dims}

/-- No statement breaks what always holds: the bookkeeping of the calls is about the clock alone. -/
theorem closed_any : Closed (fun _ _ _ => True) Set.univ where
  rollBack _ _ _ _ := trivial
  beside _ _ := trivial
  upsert _ _ _ := trivial
  hasError _ _ _ _ _ _ := trivial
  setCaches _ _ := trivial
  commit _ := trivial
  delete _ _ _ _ _ := trivial

theorem clock_applyExtract (env : Env) (ex : Extract) (w : World) : w.clock ≤ (applyExtract env ex w).2.clock :=
  ((keeps_applyExtract closed_any fun _ _ _ _ => trivial).after (w := w) ⟨trivial, le_refl _⟩).since

/-- An identity has its row and its overrides as before. -/
structure SameHolding (d : Dims) (db db' : Db) : Prop where
  row : rowOf db' d = rowOf db d
  overrides : ∀ k, (view db').overrides d k = (view db).overrides d k

theorem SameHolding.refl (d : Dims) (db : Db) : SameHolding d db db := ⟨rfl, fun _ => rfl⟩

theorem SameHolding.trans {d : Dims} {db₁ db₂ db₃ : Db} (h : SameHolding d db₁ db₂) (h' : SameHolding d db₂ db₃) :
    SameHolding d db₁ db₃ := ⟨h'.row.trans h.row, fun k => (h'.overrides k).trans (h.overrides k)⟩

/-- An effect leaves other identities alone. -/
theorem sameHolding_of_step {effect : Effect} {db' : Db} {d : Dims} (hstep : EffectStep env effect db db')
    (hd : effect.dims ≠ some d) : SameHolding d db db' where
  row := hstep.others d hd
  overrides k := by
    rw [hstep.view]
    cases effect with
    | nothing => rfl
    | failure key text => rfl
    | write written => rfl
    | quarantine dims effKey text => exact congrFun (Function.update_of_ne (fun h => hd (congrArg some h.symm)) _ _) k
    | delete dims key => exact congrFun (Function.update_of_ne (fun h => hd (congrArg some h.symm)) _ _) k

theorem sameHolding_onlyDims {db' : Db} (hinv : CatalogInv env db) (ho : OnlyDims db db') (d : Dims) : SameHolding d db db' where
  row := rowOf_onlyDims hinv ho d
  overrides k := by rw [view_onlyDims hinv ho]

/-- The database of an exit, next to the one before: other identities have their rows, other keys their failures. -/
structure AtMost (dims : Dims) (effKey : PyStr) (db db' : Db) : Prop where
  rows : ∀ d, d ≠ dims → SameHolding d db db'
  failures : ∀ k, k ≠ effKey → db'.catalogFailures.lookup k = db.catalogFailures.lookup k

/-- The failure rows after an effect: those of other keys as they were, and the one it records at the moment `t`. -/
structure Records (env : Env) (effect : Effect) (t : ℕ) (db db' : Db) : Prop where
  others : ∀ k, effect.failureKey ≠ some k → db'.catalogFailures.lookup k = db.catalogFailures.lookup k
  own : ∀ dims effKey text, effect = .quarantine dims effKey text →
    db'.catalogFailures.lookup effKey = some (env.timeNs t, text)

/-- What applying an extract of an identity comes to, on an opened catalog. -/
def AppliedAs (env : Env) (dims : Dims) (effKey : PyStr) (db : Db) (out : Except PyErr CatalogResult × World) :
    Except PyErr (CatalogResult × Effect) → Prop
  | .error e => ∃ w', out = (.error e, w') ∧ AtMost dims effKey db w'.conn.working
  | .ok (r, effect) => ∃ committed' db' c' t, out = (.ok r, viewing committed' db' c') ∧ EffectStep env effect db db' ∧
      Records env effect t db db' ∧ (∀ d k text, effect = .quarantine d k text → c' = t + 1)

theorem records_quarantined {key : FileKey} {effKey text : PyStr} {t : ℕ} :
    Records env (.quarantine dims effKey text) t db (quarantined key effKey (env.timeNs t) text db) where
  others k hk := AList.lookup_insert_ne fun h => hk (congrArg some h.symm)
  own _ _ _ h := by
    cases h
    exact AList.lookup_insert _

/-- **A quarantine**, and the result it is followed by. -/
theorem appliedAs_quarantine (hinv : CatalogInv env db) {ids : Ids} (hkey : fileKey db dims = some (ids.key dims))
    (effKey text : PyStr) (r : CatalogResult) (committed : Db) (c : ℕ) :
    AppliedAs env dims effKey db
      ((quarantineExisting env ids dims effKey text >>= fun _ => pure r : Py CatalogResult) (viewing committed db c))
      (unlessError (quarantineError dims effKey text) (r, .quarantine dims effKey text)) := by
  rcases he : quarantineError dims effKey text with _ | e
  · obtain ⟨hc, hf⟩ := Option.or_eq_none_iff.mp he
    refine ⟨quarantined (ids.key dims) effKey (env.timeNs c) text db,
      quarantined (ids.key dims) effKey (env.timeNs c) text db, c + 1, c, ?_,
      effectStep_quarantined hinv hkey effKey (env.timeNs c) text, records_quarantined, fun _ _ _ _ => rfl⟩
    rw [bind_of_ok (quarantineExisting_ok viewing_quiet ids hc hf)]
    rfl
  · obtain ⟨w', hrun, _, _, _, hworking⟩ := quarantineExisting_error env viewing_quiet ids (w := viewing committed db c) he
    refine ⟨w', bind_of_error hrun, ?_, ?_⟩
    · intro d hd
      cases hworking with
      | inl hsame =>
          rw [hsame]
          exact SameHolding.refl d db
      | inr hdeleted =>
          -- The row is gone but its failure was not recorded: as far as a deletion goes.
          have hstep := effectStep_deleted hinv hkey effKey
          have hother := sameHolding_of_step hstep fun h => hd (Option.some.inj h).symm
          rw [hdeleted]
          exact ⟨hother.row, hother.overrides⟩
    · intro k _
      cases hworking with
      | inl hsame =>
          rw [hsame]
          rfl
      | inr hdeleted =>
          rw [hdeleted]
          rfl

/-- **`_write_file_row`.** -/
theorem appliedAs_writeFileRow (hinj : FingerprintInjective env) (hinv : CatalogInv env db) {ids : Ids} {written : Written}
    (hkey : fileKey db written.dims = some (ids.key written.dims)) (c : ℕ) :
    AppliedAs env written.dims written.effKey db (writeFileRow env ids written (viewing db db c))
      (writeEffect written) := by
  have hids := idsPresent_of_fileKey hkey
  rw [writeEffect]
  rcases he : transactionError true written with _ | e
  · have he' : transactionError (idsPresent (viewing db db c).conn.working ids) written = none := by
      rw [← he, ← hids]
      rfl
    obtain ⟨db', hrun, hw⟩ := writeFileRow_cataloged hinj viewing_quiet viewing_topicsExact hinv.topics he'
    have hstep := effectStep_wrote hinv hids hkey hw
    have hcaches : Caches.of db' = { Caches.of db with
        topic := db'.topicNames.idOf, schema := db'.schemas.idOf, topicSet := db'.topicSets.idOf } := by
      rw [Caches.of, hw.customers, hw.sites, hw.robots, hw.sources]
      rfl
    have hworld : (onTopics (viewing db db c).tickClock db').commitWorking = viewing db' db' (c + 1) := by
      show _ = (⟨_, Caches.of db', _⟩ : Connection.World)
      rw [hcaches]
      rfl
    rw [hworld] at hrun
    refine ⟨db', db', c + 1, c, hrun, hstep, ⟨?_, fun _ _ _ h => by cases h⟩, fun _ _ _ h => by cases h⟩
    intro k hk
    rw [hw.catalogFailures]
    exact AList.lookup_erase_ne fun h => hk (congrArg some h.symm)
  · have he' : transactionError (idsPresent (viewing db db c).conn.working ids) written = some e := by
      rw [← he, ← hids]
      rfl
    obtain ⟨t, hrun⟩ := writeFileRow_rolledBack hinj viewing_quiet viewing_topicsExact rfl hinv.topics he'
    rw [hrun]
    exact appliedAs_quarantine hinv hkey written.effKey e.errorText ⟨.failed, e.str⟩ db t

/-- New dimension rows beforehand change nothing. -/
theorem AppliedAs.after_onlyDims {db' : Db} {effKey : PyStr} {out : Except PyErr CatalogResult × World}
    {outcome : Except PyErr (CatalogResult × Effect)} (h : AppliedAs env dims effKey db' out outcome)
    (hinv : CatalogInv env db) (ho : OnlyDims db db') : AppliedAs env dims effKey db out outcome := by
  have hfailures : db'.catalogFailures = db.catalogFailures := by
    obtain ⟨_, _, _, _, _, rfl⟩ := ho
    rfl
  cases outcome with
  | error e =>
      obtain ⟨w', hrun, hm⟩ := h
      exact ⟨w', hrun, fun d hd => (sameHolding_onlyDims hinv ho d).trans (hm.rows d hd),
        fun k hk => (hm.failures k hk).trans (by rw [hfailures])⟩
  | ok result =>
      obtain ⟨committed', db₂, c', t, hrun, hstep, hrecords, ht⟩ := h
      refine ⟨committed', db₂, c', t, hrun, hstep.after_onlyDims hinv ho, ⟨fun k hk => ?_, hrecords.own⟩, ht⟩
      rw [hrecords.others k hk, hfailures]

/-- An identity that cannot be resolved: at most dimension rows were stored. -/
theorem appliedAs_unresolved {effKey : PyStr} {e : PyErr} {m : Ids → Py CatalogResult} {committed db' : Db} {c : ℕ}
    (hinv : CatalogInv env db) (hrun : resolveIds dims (viewing committed db c) = (.error e, viewing committed db' c))
    (ho : OnlyDims db db') :
    AppliedAs env dims effKey db ((resolveIds dims >>= m : Py CatalogResult) (viewing committed db c)) (.error e) := by
  refine ⟨_, bind_of_error hrun, fun d _ => sameHolding_onlyDims hinv ho d, fun k _ => ?_⟩
  obtain ⟨_, _, _, _, _, rfl⟩ := ho
  rfl

/-- **`apply_extract`**, of an identity. -/
theorem appliedAs_applyExtract (hinj : FingerprintInjective env) (hinv : CatalogInv env db) {ex : Extract}
    (hdims : ex.dims = some dims) (hparsed : ∀ text, ex.outcome ≠ .unparseable text) (committed : Db) (c : ℕ) :
    AppliedAs env dims ex.effKey db (applyExtract env ex (viewing committed db c)) (effectOf ex) := by
  obtain ⟨key, stat, exDims, effKey, outcome⟩ := ex
  dsimp only at hdims hparsed
  subst hdims
  have hr := resolveIds_viewing hinv dims committed c
  cases outcome with
  | vanished =>
      exact ⟨committed, db, c, c, rfl, EffectStep.refl hinv, ⟨fun _ _ => rfl, fun _ _ _ h => by cases h⟩,
        fun _ _ _ h => by cases h⟩
  | unparseable text => exact absurd rfl (hparsed text)
  | error text =>
      show AppliedAs env dims effKey db
        ((resolveIds dims >>= fun ids => quarantineExisting env ids dims effKey text >>= fun _ =>
          pure ⟨.failed, text⟩ : Py CatalogResult) (viewing committed db c))
        (unlessError ((bindError (nameParams dims)).or (quarantineError dims effKey text))
          (⟨.failed, text⟩, .quarantine dims effKey text))
      rcases hb : bindError (nameParams dims) with _ | e
      · rw [hb] at hr
        obtain ⟨ids, db', hrun, ho, hkey⟩ := hr
        rw [bind_of_ok hrun, Option.none_or]
        exact (appliedAs_quarantine (hinv.onlyDims ho) hkey effKey text _ db' c).after_onlyDims hinv ho
      · rw [hb] at hr
        obtain ⟨db', hrun, ho⟩ := hr
        exact appliedAs_unresolved hinv hrun ho
  | ready summary =>
      show AppliedAs env dims effKey db
        ((resolveIds dims >>= fun ids => writeFileRow env ids ⟨dims, effKey, stat, summary⟩ : Py CatalogResult)
          (viewing committed db c)) _
      rw [effectOf]
      dsimp only
      rcases hb : bindError (nameParams dims) with _ | e
      · rw [hb] at hr
        obtain ⟨ids, db', hrun, ho, hkey⟩ := hr
        rw [bind_of_ok hrun]
        have hwrite : AppliedAs env dims effKey db' (writeFileRow env ids ⟨dims, effKey, stat, summary⟩ (viewing db' db' c))
            (writeEffect ⟨dims, effKey, stat, summary⟩) :=
          appliedAs_writeFileRow hinj (hinv.onlyDims ho) hkey c
        exact hwrite.after_onlyDims hinv ho
      · rw [hb] at hr
        obtain ⟨db', hrun, ho⟩ := hr
        exact appliedAs_unresolved hinv hrun ho

end Applying

/-! ### What the classification sees -/

/-- A listed file and what its key was taken for when it was classified. -/
structure Sighting where
  listing : Listing
  seen : Option (Dims × PyStr)

/-- The classification, from the moment `t` on; recording an unparseable key reads the clock once more. -/
def sightings (source : Source) : ℕ → List Listing → List Sighting
  | _, [] => []
  | t, lst :: rest =>
    ⟨lst, trustedDims (source.intendedKey t lst.key) lst.key⟩ ::
      sightings source (if (trustedDims (source.intendedKey t lst.key) lst.key).isNone then t + 2 else t + 1) rest

/-- The entry of `to_extract` for a sighting, if its file is new or changed. -/
def Sighting.job (stored : Dims → Option PyStr) (s : Sighting) : Option Job :=
  match s.seen with
  | none => none
  | some (dims, effKey) =>
    if stored dims = some s.listing.stat.etag then none else some ⟨s.listing.key, s.listing.stat, dims, effKey⟩

theorem map_listing_sightings (source : Source) (listings : List Listing) :
    ∀ t, (sightings source t listings).map Sighting.listing = listings := by
  induction listings with
  | nil => intro t; rfl
  | cons lst rest ih =>
      intro t
      rw [sightings, List.map_cons, ih]

/-- What the scan and the database hold after some sightings. -/
structure Scanned (env : Env) (c : ℕ) (db : Db) (stored : Dims → Option PyStr) (ss : List Sighting) (scan : Scan)
    (db' : Db) : Prop where
  only : ∃ f, db' = withFailures db f
  jobs : scan.toExtract = ss.filterMap (Sighting.job stored)
  dims : ∀ s ∈ ss, ∀ d effKey, s.seen = some (d, effKey) → scan.dimsByKey s.listing.key = some d
  failures : ∀ s ∈ ss, s.seen = none → RecordedSince env c db' s.listing.key
  others : ∀ q, (∀ s ∈ ss, s.seen = none → s.listing.key ≠ q) → db'.catalogFailures.lookup q = db.catalogFailures.lookup q

theorem RecordedSince.upsertFailure {env : Env} {c t : ℕ} {db : Db} {k : PyStr} (h : RecordedSince env c db k) (ht : c ≤ t)
    (key text : PyStr) : RecordedSince env c (Db.upsertFailure key (env.timeNs t) text db) k := by
  by_cases hk : k = key
  · exact ⟨t, text, ht, by rw [hk]; exact AList.lookup_insert _⟩
  · obtain ⟨t', text', ht', hlookup⟩ := h
    exact ⟨t', text', ht', (AList.lookup_insert_ne hk).trans hlookup⟩

section Scanning

variable {env : Env} {db : Db} {source : Source}

/-- One more sighting of an unparseable key. -/
theorem Scanned.unparseable {c t : ℕ} {stored : Dims → Option PyStr} {ss : List Sighting} {scan : Scan} {db' : Db}
    (h : Scanned env c db stored ss scan db') (lst : Listing) (ht : c ≤ t) (text : PyStr) (tally : Tally) :
    Scanned env c db stored (ss ++ [⟨lst, none⟩]) { scan with tally := tally }
      (Db.upsertFailure lst.key (env.timeNs t) text db') where
  only := by
    obtain ⟨f, rfl⟩ := h.only
    exact ⟨_, rfl⟩
  jobs := by
    rw [List.filterMap_append, ← h.jobs]
    exact (List.append_nil _).symm
  dims s hs d effKey hseen := by
    rcases List.mem_append.mp hs with hold | hnew
    · exact h.dims s hold d effKey hseen
    · rw [List.mem_singleton.mp hnew] at hseen
      cases hseen
  failures s hs hseen := by
    rcases List.mem_append.mp hs with hold | hnew
    · exact (h.failures s hold hseen).upsertFailure ht lst.key text
    · rw [List.mem_singleton.mp hnew]
      exact ⟨t, text, ht, AList.lookup_insert _⟩
  others q hq := by
    have hlast : q ≠ lst.key := fun heq => hq _ (List.mem_append_right _ (List.mem_singleton_self _)) rfl heq.symm
    exact (AList.lookup_insert_ne hlast).trans (h.others q fun s hs => hq s (List.mem_append_left _ hs))

/-- One more sighting of an identity, under a key not met before. -/
theorem Scanned.identified {c : ℕ} {stored : Dims → Option PyStr} {ss : List Sighting} {scan : Scan} {db' : Db}
    (h : Scanned env c db stored ss scan db') (lst : Listing) (dims : Dims) (effKey : PyStr)
    (hnew : ∀ s ∈ ss, s.listing.key ≠ lst.key) (tally : Tally) :
    Scanned env c db stored (ss ++ [⟨lst, some (dims, effKey)⟩])
      ⟨Function.update scan.dimsByKey lst.key (some dims),
        scan.toExtract ++ (Sighting.job stored ⟨lst, some (dims, effKey)⟩).toList, tally⟩ db' where
  only := h.only
  jobs := by
    rw [List.filterMap_append, ← h.jobs, List.filterMap_cons]
    cases Sighting.job stored ⟨lst, some (dims, effKey)⟩ <;> rfl
  dims s hs d effKey' hseen := by
    rcases List.mem_append.mp hs with hold | hlast
    · show Function.update scan.dimsByKey lst.key (some dims) s.listing.key = _
      rw [Function.update_of_ne (hnew s hold)]
      exact h.dims s hold d effKey' hseen
    · rw [List.mem_singleton.mp hlast] at hseen ⊢
      cases hseen
      exact Function.update_self _ _ _
  failures s hs hseen := by
    rcases List.mem_append.mp hs with hold | hlast
    · exact h.failures s hold hseen
    · rw [List.mem_singleton.mp hlast] at hseen
      cases hseen
  others q hq := h.others q fun s hs => hq s (List.mem_append_left _ hs)

/-- The etag stored for an identity. -/
def etagOf (db : Db) (dims : Dims) : Option PyStr := (fileKey db dims).bind (storedEtags db)

/-- The loop has met some of the listings, and the rest is still to come. -/
def Midway (env : Env) (db : Db) (source : Source) (c t₀ : ℕ) (listings rest : List Listing) (scan : Scan) (w : World) :
    Prop :=
  ∃ met committed db' t, w = viewing committed db' t ∧ c ≤ t ∧
    sightings source t₀ listings = met ++ sightings source t rest ∧ Scanned env c db (etagOf db) met scan db'

/-- **One round of the classification.** -/
theorem triple_classify (env : Env) (db : Db) (source : Source) (c t₀ : ℕ) {listings : List Listing}
    (hdistinct : (listings.map Listing.key).Nodup) (scan : Scan) (lst : Listing) (rest : List Listing) :
    Triple (Midway env db source c t₀ listings (lst :: rest) scan) (classify env source (storedEtags db) scan lst)
      (Midway env db source c t₀ listings rest) (fun _ w => ∃ f, w.conn.working = withFailures db f) := by
  intro w hw
  obtain ⟨met, committed, db', t, rfl, hc, hsplit, hscan⟩ := hw
  have hnew : ∀ s ∈ met, s.listing.key ≠ lst.key := by
    have hlistings := map_listing_sightings source listings t₀
    rw [hsplit, List.map_append, map_listing_sightings] at hlistings
    rw [← hlistings, List.map_append, List.map_cons] at hdistinct
    intro s hs hkey
    refine List.disjoint_of_nodup_append hdistinct (List.mem_map_of_mem (List.mem_map_of_mem hs)) ?_
    rw [hkey]
    exact List.mem_cons_self
  have hdims : resolveKeyDims lst.key source (viewing committed db' t) =
      (.ok (trustedDims (source.intendedKey t lst.key) lst.key), viewing committed db' (t + 1)) := rfl
  rw [sightings] at hsplit
  rw [classify, bind_of_ok hdims]
  rcases hseen : trustedDims (source.intendedKey t lst.key) lst.key with _ | ⟨dims, effKey⟩
  · rw [hseen] at hsplit
    rcases hf : failureError lst.key (py "unparseable key") with _ | e
    · have hrun : (recordFailure env lst.key (py "unparseable key") >>= fun _ => commit >>= fun _ =>
          pure { scan with tally := scan.tally.add .failed } : Py Scan) (viewing committed db' (t + 1)) =
            (.ok { scan with tally := scan.tally.add .failed },
              viewing (Db.upsertFailure lst.key (env.timeNs (t + 1)) (py "unparseable key") db')
                (Db.upsertFailure lst.key (env.timeNs (t + 1)) (py "unparseable key") db') (t + 2)) := by
        rw [bind_of_ok (recordFailure_ok viewing_quiet hf)]
        exact bind_of_ok (commit_quiet viewing_quiet)
      show Exit _ _ ((recordFailure env lst.key (py "unparseable key") >>= fun _ => commit >>= fun _ =>
          pure { scan with tally := scan.tally.add .failed } : Py Scan) (viewing committed db' (t + 1)))
      rw [hrun]
      refine ⟨met ++ [⟨lst, none⟩], _, _, t + 2, rfl, by omega, ?_, hscan.unparseable lst (by omega) _ _⟩
      rw [hsplit, List.append_assoc]
      rfl
    · show Exit _ _ ((recordFailure env lst.key (py "unparseable key") >>= fun _ => commit >>= fun _ =>
          pure { scan with tally := scan.tally.add .failed } : Py Scan) (viewing committed db' (t + 1)))
      rw [bind_of_error (recordFailure_error viewing_quiet hf)]
      exact hscan.only
  · rw [hseen] at hsplit
    have hetag : (compositeIds (viewing committed db' (t + 1)).caches dims).bind (storedEtags db) = etagOf db dims := by
      obtain ⟨f, rfl⟩ := hscan.only
      rfl
    have hkept : ∀ tally, Midway env db source c t₀ listings rest
        ⟨Function.update scan.dimsByKey lst.key (some dims),
          scan.toExtract ++ (Sighting.job (etagOf db) ⟨lst, some (dims, effKey)⟩).toList, tally⟩
        (viewing committed db' (t + 1)) := by
      intro tally
      refine ⟨met ++ [⟨lst, some (dims, effKey)⟩], _, _, t + 1, rfl, by omega, ?_, hscan.identified lst dims effKey hnew _⟩
      rw [hsplit, List.append_assoc]
      rfl
    simp only [Sighting.job] at hkept
    dsimp only
    rw [bind_of_ok (look_apply _), hetag]
    by_cases hsame : etagOf db dims = some lst.stat.etag
    · rw [if_pos hsame] at hkept ⊢
      have hskipped := hkept (scan.tally.add .skipped)
      rw [Option.toList_none, List.append_nil] at hskipped
      exact hskipped
    · rw [if_neg hsame] at hkept ⊢
      exact hkept scan.tally

end Scanning

/-! ### Reading and applying -/

section Jobs

variable {env : Env} {source : Source}

/-- An extract is of its job's identity. -/
theorem extract_of_job (job : Job) (source : Source) (a b : ℕ) :
    (job.extract source a b).dims = some job.dims ∧ (job.extract source a b).effKey = job.effKey ∧
      ∀ text, (job.extract source a b).outcome ≠ .unparseable text := by
  rw [Job.extract, extractSummary]
  cases source.readSummary a job.key job.stat.size with
  | ok summary => exact ⟨rfl, rfl, fun _ h => by cases h⟩
  | error e =>
      cases source.stat b job.key with
      | error e' => exact ⟨rfl, rfl, fun _ h => by cases h⟩
      | ok found =>
          cases found with
          | none => exact ⟨rfl, rfl, fun _ h => by cases h⟩
          | some stat => exact ⟨rfl, rfl, fun _ h => by cases h⟩

/-- A property of the database and of the jobs to come that applying one of them at `c` or later keeps, whichever way it
goes. -/
structure Survives (env : Env) (source : Source) (c : ℕ) (J : List Job → Db → Prop) : Prop where
  perm : ∀ {jobs jobs' db}, jobs.Perm jobs' → J jobs db → J jobs' db
  raised : ∀ {job rest db db' a b e}, J (job :: rest) db → c ≤ a → c ≤ b → effectOf (job.extract source a b) = .error e →
    AtMost job.dims job.effKey db db' → J [] db'
  applied : ∀ {job rest db db' a b t result effect}, J (job :: rest) db → c ≤ a → c ≤ b →
    effectOf (job.extract source a b) = .ok (result, effect) → EffectStep env effect db db' → Records env effect t db db' →
      (∀ d k text, effect = .quarantine d k text → c ≤ t) → J rest db'

/-- An opened catalog with the property, after the moment `c`. -/
def Opened (env : Env) (c : ℕ) (J : List Job → Db → Prop) (jobs : List Job) (w : World) : Prop :=
  ∃ committed db t, w = viewing committed db t ∧ c < t ∧ CatalogInv env db ∧ J jobs db

variable {c : ℕ} {J : List Job → Db → Prop}

theorem triple_applyAndCount (hinj : FingerprintInjective env) (hJ : Survives env source c J) (tally : Tally) (job : Job)
    (rest : List Job) {a b : ℕ} (ha : c ≤ a) (hb : c ≤ b) :
    Triple (Opened env c J (job :: rest)) (applyAndCount env tally (job.extract source a b))
      (fun _ => Opened env c J rest) (fun _ w => J [] w.conn.working) := by
  intro w hw
  obtain ⟨committed, db, t, rfl, ht, hinv, hj⟩ := hw
  obtain ⟨hdims, heffKey, hparsed⟩ := extract_of_job job source a b
  have happlied := appliedAs_applyExtract hinj hinv hdims hparsed committed t
  have hclock := clock_applyExtract env (job.extract source a b) (viewing committed db t)
  rw [heffKey] at happlied
  rw [applyAndCount]
  rcases heffect : effectOf (job.extract source a b) with e | ⟨result, effect⟩
  · rw [heffect] at happlied
    obtain ⟨w', hrun, hmost⟩ := happlied
    rw [bind_of_error hrun]
    exact hJ.raised hj ha hb heffect hmost
  · rw [heffect] at happlied
    obtain ⟨committed', db', t', t₁, hrun, hstep, hrecords, hmoment⟩ := happlied
    rw [hrun] at hclock
    have ht' : t ≤ t' := hclock
    rw [bind_of_ok hrun]
    refine ⟨committed', db', t', rfl, by omega, hstep.inv, hJ.applied hj ha hb heffect hstep hrecords ?_⟩
    intro d k text hquarantine
    have := hmoment d k text hquarantine
    omega

theorem Opened.late {jobs : List Job} {w : World} (h : Opened env c J jobs w) : c ≤ w.clock := by
  obtain ⟨committed, db, t, rfl, ht, _, _⟩ := h
  exact Nat.le_of_lt ht

theorem opened_tick {jobs : List Job} {w : World} (h : Opened env c J jobs w) : Opened env c J jobs w.tickClock := by
  obtain ⟨committed, db, t, rfl, ht, hinv, hj⟩ := h
  exact ⟨committed, db, t + 1, rfl, by omega, hinv, hj⟩

/-- **The read and apply phases**, however the reads complete. -/
theorem triple_readAndApply (hinj : FingerprintInjective env) (hJ : Survives env source c J) (workers : Workers)
    (jobs : List Job) (tally : Tally) :
    Triple (Opened env c J jobs) (readAndApply env source workers jobs tally) (fun _ => Opened env c J [])
      (fun _ w => J [] w.conn.working) := by
  have hone : ∀ tally job rest, Triple (Opened env c J (job :: rest)) (extractAndApply env source tally job)
      (fun _ => Opened env c J rest) (fun _ w => J [] w.conn.working) := by
    intro tally job rest w hw
    have hlate := hw.late
    rw [extractAndApply, bind_of_ok (tick_apply _), bind_of_ok (tick_apply _)]
    refine triple_applyAndCount hinj hJ tally job rest hlate ?_ _ (opened_tick (opened_tick hw))
    show c ≤ w.clock + 1
    omega
  have hsequential : Triple (Opened env c J jobs) (foldEach (extractAndApply env source) tally jobs)
      (fun _ => Opened env c J []) (fun _ w => J [] w.conn.working) :=
    Triple.foldEach (I := fun rest _ => Opened env c J rest) hone jobs tally
  cases workers with
  | one => exact hsequential
  | pool run =>
      rw [readAndApply]
      split
      · have horder : jobs.Perm ((run jobs.length).completed.map fun done => jobs.get done.job) := by
          have hp := (run jobs.length).complete.map jobs.get
          rw [List.map_map, ← List.ofFn_eq_map, List.ofFn_get] at hp
          exact hp.symm
        intro w hw
        have hlate := hw.late
        rw [bind_of_ok (tick_apply w)]
        refine Triple.foldEach (I := fun rest _ => Opened env c J (rest.map fun done => jobs.get done.job))
          (fun tally done rest => ?_) (run jobs.length).completed tally w.tickClock ?_
        · exact triple_applyAndCount hinj hJ tally (jobs.get done.job) _ (by omega) (by omega)
        · obtain ⟨committed, db, t, heq, ht, hinv, hj⟩ := opened_tick hw
          exact ⟨committed, db, t, heq, ht, hinv, hJ.perm horder hj⟩
      · exact hsequential

/-! ### The whole run -/

/-- What a reconcile leaves of a property: it was stopped before it wrote a row, or by an error while it applied, or it
has swept. -/
inductive Ended (env : Env) (source : Source) (c : ℕ) (J : List Job → Db → Prop) (listings : List Listing) (db db' : Db) :
    Prop where
  | unclassified (f : Rows PyStr (ℤ × PyStr)) (h : db' = withFailures db f)
  | raised (h : J [] db')
  | swept (scan : Scan) (db₁ db₂ : Db)
      (scanned : Scanned env (c + 1) db (etagOf db) (sightings source (c + 1) listings) scan db₁) (kept : J [] db₂)
      (swept : Swept (present (Caches.of db₂) scan.dimsByKey listings) db₂ db')

/-- **The end of a reconcile**, in both exits. -/
theorem fullReconcile_ended (hinj : FingerprintInjective env) {db : Db} (hinv : CatalogInv env db)
    (hJ : Survives env source c J) (workers : Workers) {listings : List Listing} (hlist : source.listAll c = .ok listings)
    (hdistinct : (listings.map Listing.key).Nodup)
    (hstart : ∀ scan db₁, Scanned env (c + 1) db (etagOf db) (sightings source (c + 1) listings) scan db₁ →
      J scan.toExtract db₁) (committed : Db) :
    Ended env source c J listings db (fullReconcile env source workers (viewing committed db c)).2.conn.working := by
  have hask := listAll_viewing hlist committed db
  have hquery := storedEtags_viewing committed db (c + 1)
  have hloop := Triple.foldEach (triple_classify env db source (c + 1) (c + 1) hdistinct) listings
    ⟨fun _ => none, [], Tally.zero⟩ (viewing committed db (c + 1)) ⟨[], committed, db, c + 1, rfl, le_refl _, rfl,
      ⟨db.catalogFailures, rfl⟩, rfl, fun _ hs => absurd hs List.not_mem_nil, fun _ hs => absurd hs List.not_mem_nil,
      fun _ _ => rfl⟩
  rw [fullReconcile, bind_of_ok hask, bind_of_ok hquery]
  rcases hclassify : foldEach (classify env source (storedEtags db)) ⟨fun _ => none, [], Tally.zero⟩ listings
      (viewing committed db (c + 1)) with ⟨out, w₁⟩
  rw [hclassify] at hloop
  cases out with
  | error e =>
      rw [bind_of_error hclassify]
      obtain ⟨f, hf⟩ := hloop
      exact .unclassified f hf
  | ok scan =>
      obtain ⟨met, committed₁, db₁, t₁, rfl, ht₁, hmet, hscanned⟩ := hloop
      rw [sightings, List.append_nil] at hmet
      rw [← hmet] at hscanned
      have hinv₁ : CatalogInv env db₁ := by
        obtain ⟨f, rfl⟩ := hscanned.only
        exact hinv.failures f db.buildMetadata
      have hread := triple_readAndApply hinj hJ workers scan.toExtract scan.tally (viewing committed₁ db₁ t₁)
        ⟨committed₁, db₁, t₁, rfl, ht₁, hinv₁, hstart scan db₁ hscanned⟩
      rw [bind_of_ok hclassify]
      rcases happly : readAndApply env source workers scan.toExtract scan.tally (viewing committed₁ db₁ t₁) with ⟨out, w₂⟩
      rw [happly] at hread
      cases out with
      | error e =>
          rw [bind_of_error happly]
          exact .raised hread
      | ok tally =>
          obtain ⟨committed₂, db₂, t₂, rfl, _, hinv₂, hkept⟩ := hread
          obtain ⟨db₃, hsweep, _, hswept⟩ := foldEach_sweepRow (present (Caches.of db₂) scan.dimsByKey listings) hinv₂
            committed₂ tally t₂
          have hrows := filesRows_viewing committed₂ db₂ t₂
          rw [bind_of_ok happly, bind_of_ok (look_apply _), bind_of_ok hrows]
          show Ended env source c J listings db
            ((foldEach (sweepRow (present (Caches.of db₂) scan.dimsByKey listings)) tally db₂.files.rows >>= _ : Py Tally)
              (viewing committed₂ db₂ t₂)).2.conn.working
          rw [bind_of_ok hsweep, bind_of_ok commit_viewing, bind_of_ok (recordBuild_viewing db₃ _ _ (encodable_outcome _) t₂)]
          exact .swept scan db₁ db₂ hscanned hkept ⟨hswept.keys, hswept.rows, hswept.overrides, hswept.failures⟩

end Jobs

end McapCatalog.Builder
