import McapCatalog.Refinement

/-!
# Sequences of effects

The loops of the full reconcile, from a freshly opened catalog.

* `Steps` — a list of effects refined one after the other: `Steps.view`, `Steps.others`, `Steps.keepsId`;
* `foldEach_apply` — **the apply loop**: it raises if some extract does, else it refines all their effects and
  counts their results;
* `Swept`, `foldEach_sweepRow` — **the deletion sweep**.
-/

namespace McapCatalog.Builder

open McapCatalog.PyText McapCatalog.PyError McapCatalog.KeyParse McapCatalog.McapSummary
open McapCatalog.Storage McapCatalog.Tables McapCatalog.RowidTable McapCatalog.KeyedRows
open McapCatalog.Connection McapCatalog.CatalogDb McapCatalog.Reconcile
open McapCatalog.SurvivingState McapCatalog.SurvivingState.Comp

/-! ### Effects one after the other -/

/-- A change of the database that refines a list of effects. -/
inductive Steps (env : Env) : List Effect → Db → Db → Prop where
  | nil (db : Db) : Steps env [] db db
  | cons {effect : Effect} {effects : List Effect} {a b c : Db} (h : EffectStep env effect a b)
      (hs : Steps env effects b c) : Steps env (effect :: effects) a c

variable {env : Env} {effects : List Effect} {db db' : Db}

theorem Steps.inv (h : Steps env effects db db') (hinv : CatalogInv env db) : CatalogInv env db' := by
  induction h with
  | nil => exact hinv
  | cons hstep _ ih => exact ih hstep.inv

theorem Steps.grow (h : Steps env effects db db') : DimsGrow db db' := by
  induction h with
  | nil db => exact DimsGrow.refl db
  | cons hstep _ ih => exact hstep.grow.trans ih

theorem Steps.view (h : Steps env effects db db') : view db' = effects.foldl Effect.apply (view db) := by
  induction h with
  | nil => rfl
  | cons hstep _ ih => rw [ih, List.foldl_cons, hstep.view]

theorem Steps.append {effects' : List Effect} {db'' : Db} (h : Steps env effects db db')
    (h' : Steps env effects' db' db'') : Steps env (effects ++ effects') db db'' := by
  induction h with
  | nil => exact h'
  | cons hstep _ ih => exact Steps.cons hstep (ih h')

/-- Identities that no effect is about keep their rows. -/
theorem Steps.others (h : Steps env effects db db') {d : Dims} (hd : ∀ e ∈ effects, e.dims ≠ some d) :
    rowOf db' d = rowOf db d := by
  induction h with
  | nil => rfl
  | cons hstep _ ih =>
      rw [ih fun e he => hd e (List.mem_cons_of_mem _ he), hstep.others d (hd _ List.mem_cons_self)]

/-- An identity that has a row before and after keeps its id, if no two effects are about it. -/
theorem Steps.keepsId (h : Steps env effects db db') (hl : effects.Pairwise Effect.Apart) {d : Dims}
    {r r' : Row FileKey FileCols} (hr : rowOf db d = some r) (hr' : rowOf db' d = some r') : r'.id = r.id := by
  induction h with
  | nil =>
      rw [hr] at hr'
      rw [Option.some.inj hr']
  | @cons effect effects a b c hstep hs ih =>
      rw [List.pairwise_cons] at hl
      by_cases hd : effect.dims = some d
      · rw [hs.others fun e he => (hl.1 e he).1 d hd] at hr'
        exact hstep.keepsId d r r' hr hr'
      · rw [← hstep.others d hd] at hr
        exact ih hl.2 hr hr'

/-- The rows of a class of keys that no effect reaches stay as they are. -/
theorem Steps.outside (h : Steps env effects db db') {p : FileKey → Bool}
    (hp : ∀ e ∈ effects, ∀ d key, e.dims = some d → fileKey db' d = some key → p key = false) :
    db'.files.rows.filter (fun r => p r.key) = db.files.rows.filter fun r => p r.key := by
  induction h with
  | nil => rfl
  | cons hstep hs ih =>
      rw [ih fun e he => hp e (List.mem_cons_of_mem _ he)]
      exact hstep.outside p fun d key hd hkey => hp _ List.mem_cons_self d key hd (fileKey_mono hs.grow.names hkey)

/-! ### The apply loop -/

/-- What a list of extracts comes to, one by one. -/
def Come (exs : List Extract) (results : List (CatalogResult × Effect)) : Prop :=
  List.Forall₂ (fun ex r => effectOf ex = .ok r) exs results

/-- The tally after some results. -/
def tallied (tally : Tally) (results : List (CatalogResult × Effect)) : Tally :=
  results.foldl (fun tally r => tally.add r.1.status) tally

theorem add_deleted (tally : Tally) (status : Status) : (tally.add status).deleted = tally.deleted := by
  cases status <;> rfl

theorem tallied_deleted (tally : Tally) (results : List (CatalogResult × Effect)) :
    (tallied tally results).deleted = tally.deleted := by
  induction results generalizing tally with
  | nil => rfl
  | cons r results ih => exact (ih _).trans (add_deleted _ _)

/-- **The apply loop**, whatever reads the extracts: it raises if one of them does. -/
theorem foldEach_apply {α : Type} {f : Tally → α → Py Tally} {g : α → Extract}
    (hinj : FingerprintInjective env)
    (hf : ∀ tally a committed db t, ∃ t', f tally a (viewing committed db t) =
      (applyExtract env (g a) >>= fun r => pure (tally.add r.status) : Py Tally) (viewing committed db t'))
    (as : List α) (hinv : CatalogInv env db) (tally : Tally) (committed : Db) (t : ℕ) :
    ((∃ a ∈ as, ∃ e, effectOf (g a) = .error e) ∧ ∃ e w', foldEach f tally as (viewing committed db t) = (.error e, w')) ∨
      ∃ results committed' db' t', Come (as.map g) results ∧
        foldEach f tally as (viewing committed db t) = (.ok (tallied tally results), viewing committed' db' t') ∧
        Steps env (results.map Prod.snd) db db' := by
  induction as generalizing db tally committed t with
  | nil => exact Or.inr ⟨[], committed, db, t, List.Forall₂.nil, rfl, Steps.nil db⟩
  | cons a as ih =>
      obtain ⟨t₁, hone⟩ := hf tally a committed db t
      have happly := refinesFrom_applyExtract hinj hinv (g a) committed t₁
      rw [foldEach_cons]
      rcases hout : effectOf (g a) with e | ⟨result, effect⟩
      · rw [hout] at happly
        obtain ⟨w', hrun⟩ := happly
        exact Or.inl ⟨⟨a, List.mem_cons_self, e, hout⟩, e, w',
          bind_of_error (hone.trans (bind_of_error hrun))⟩
      · rw [hout] at happly
        obtain ⟨committed₁, db₁, t₂, hrun, hstep⟩ := happly
        have hfirst := hone.trans (bind_of_ok hrun)
        have hnext : (f tally a >>= fun b => foldEach f b as) (viewing committed db t) =
            foldEach f (tally.add result.status) as (viewing committed₁ db₁ t₂) := bind_of_ok hfirst
        rcases ih hstep.inv (tally.add result.status) committed₁ t₂ with
          ⟨⟨a', ha', e, he⟩, e', w', hrest⟩ | ⟨results, committed₂, db₂, t₃, hcome, hrest, hsteps⟩
        · exact Or.inl ⟨⟨a', List.mem_cons_of_mem _ ha', e, he⟩, e', w', hnext.trans hrest⟩
        · exact Or.inr ⟨(result, effect) :: results, committed₂, db₂, t₃, List.Forall₂.cons hout hcome,
            hnext.trans hrest, Steps.cons hstep hsteps⟩

/-! ### The sweep -/

/-- The database without the rows whose key is not present. -/
structure Swept (isPresent : FileKey → Bool) (db db' : Db) : Prop where
  keys : ∀ d, fileKey db' d = fileKey db d
  rows : db'.files.rows = db.files.rows.filter fun r => isPresent r.key
  overrides : ∀ r ∈ db'.files.rows, ∀ k,
    db'.tagsOverride.lookup (r.id, k) = db.tagsOverride.lookup (r.id, k)
  failures : db'.catalogFailures = db.catalogFailures

/-- One deletion of the sweep. -/
def sweepOne (isPresent : FileKey → Bool) (db : Db) (row : Row FileKey FileCols) : Db :=
  if isPresent row.key then db else db.deleteFiles fun r => r.id = row.id

/-- What the sweep over some rows leaves. -/
theorem sweep_rows (isPresent : FileKey → Bool) (rows : List (Row FileKey FileCols)) (hinv : CatalogInv env db) :
    let db' := rows.foldl (sweepOne isPresent) db
    CatalogInv env db' ∧ (∀ d, fileKey db' d = fileKey db d) ∧
      db'.files.rows = db.files.rows.filter (fun r => !rows.any fun q => q.id = r.id ∧ isPresent q.key = false) ∧
      (∀ r ∈ db'.files.rows, ∀ k,
        db'.tagsOverride.lookup (r.id, k) = db.tagsOverride.lookup (r.id, k)) ∧
      db'.catalogFailures = db.catalogFailures := by
  induction rows generalizing db with
  | nil => exact ⟨hinv, fun _ => rfl, by simp, fun _ _ _ => rfl, rfl⟩
  | cons q rows ih =>
      have hone : CatalogInv env (sweepOne isPresent db q) ∧
          (∀ d, fileKey (sweepOne isPresent db q) d = fileKey db d) ∧
          (sweepOne isPresent db q).files.rows =
            db.files.rows.filter (fun r => !decide (q.id = r.id ∧ isPresent q.key = false)) ∧
          (∀ r ∈ (sweepOne isPresent db q).files.rows, ∀ k,
            (sweepOne isPresent db q).tagsOverride.lookup (r.id, k) = db.tagsOverride.lookup (r.id, k)) ∧
          (sweepOne isPresent db q).catalogFailures = db.catalogFailures := by
        unfold sweepOne
        by_cases hq : isPresent q.key = true
        · rw [if_pos hq]
          exact ⟨hinv, fun _ => rfl, by simp [hq], fun _ _ _ => rfl, rfl⟩
        · rw [if_neg hq]
          refine ⟨hinv.deleteFiles _, fun d => fileKey_congr rfl rfl rfl rfl d, ?_, ?_, rfl⟩
          · show db.files.rows.filter _ = _
            apply List.filter_congr
            intro r _
            simp [hq, eq_comm]
          · intro r hr k
            have hmem := Table.mem_filter.mp hr
            have hne : r.id ≠ q.id := by simpa using hmem.2
            rw [lookup_override_deleteFiles, goes_of_get (Table.get_of_mem hmem.1), decide_eq_false hne]
            rfl
      obtain ⟨hinv₁, hkeys₁, hrows₁, hover₁, hfail₁⟩ := hone
      obtain ⟨hinv₂, hkeys₂, hrows₂, hover₂, hfail₂⟩ := ih hinv₁
      refine ⟨hinv₂, fun d => (hkeys₂ d).trans (hkeys₁ d), ?_, ?_, hfail₂.trans hfail₁⟩
      · rw [List.foldl_cons, hrows₂, hrows₁, List.filter_filter]
        apply List.filter_congr
        intro r _
        rw [List.any_cons, Bool.not_or, Bool.and_comm]
      · intro r hr k
        rw [List.foldl_cons, hover₂ r hr k]
        rw [List.foldl_cons, hrows₂] at hr
        exact hover₁ r (List.mem_filter.mp hr).1 k

/-- **The deletion sweep**: it deletes exactly the rows that are not present, and counts them. -/
theorem foldEach_sweepRow (isPresent : FileKey → Bool) (hinv : CatalogInv env db) (committed : Db)
    (tally : Tally) (t : ℕ) :
    ∃ db', foldEach (sweepRow isPresent) tally db.files.rows (viewing committed db t) =
        (.ok { tally with
          deleted := tally.deleted + (db.files.rows.filter fun r => !isPresent r.key).length },
          viewing committed db' t) ∧
      CatalogInv env db' ∧ Swept isPresent db db' := by
  have hloop : ∀ (rows : List (Row FileKey FileCols)) (db : Db) (tally : Tally),
      foldEach (sweepRow isPresent) tally rows (viewing committed db t) =
        (.ok { tally with deleted := tally.deleted + (rows.filter fun r => !isPresent r.key).length },
          viewing committed (rows.foldl (sweepOne isPresent) db) t) := by
    intro rows
    induction rows with
    | nil => intro db tally; rfl
    | cons q rows ih =>
        intro db tally
        rw [foldEach_cons, List.foldl_cons]
        by_cases hq : isPresent q.key = true
        · have hone : sweepRow isPresent tally q (viewing committed db t) = (.ok tally, viewing committed db t) := by
            rw [sweepRow, if_pos hq]
            rfl
          rw [bind_of_ok hone, ih, List.filter_cons_of_neg (by simp [hq]), sweepOne, if_pos hq]
        · have hone : sweepRow isPresent tally q (viewing committed db t) =
              (.ok { tally with deleted := tally.deleted + 1 },
                viewing committed (db.deleteFiles fun r => r.id = q.id) t) := by
            rw [sweepRow, if_neg hq, bind_of_ok (execute_ok viewing_quiet bindError_nil _)]
            rfl
          rw [bind_of_ok hone, ih, List.filter_cons_of_pos (by simp [hq]), sweepOne, if_neg hq, List.length_cons]
          have hcount : tally.deleted + 1 + (rows.filter fun r => !isPresent r.key).length =
              tally.deleted + ((rows.filter fun r => !isPresent r.key).length + 1) := by omega
          simp only [hcount]
  obtain ⟨hinv', hkeys, hrows, hover, hfail⟩ := sweep_rows isPresent db.files.rows hinv
  refine ⟨_, hloop _ _ _, hinv', hkeys, ?_, hover, hfail⟩
  rw [hrows]
  apply List.filter_congr
  intro r hr
  have hany : (db.files.rows.any fun q => q.id = r.id ∧ isPresent q.key = false) = !isPresent r.key := by
    rw [Bool.eq_iff_iff, List.any_eq_true]
    constructor
    · rintro ⟨q, hq, hp⟩
      simp only [decide_eq_true_eq] at hp
      rw [db.files.eq_of_id_eq hr hq hp.1.symm, hp.2]
      rfl
    · intro hp
      exact ⟨r, hr, by simpa using hp⟩
  rw [hany, Bool.not_not]

end McapCatalog.Builder
