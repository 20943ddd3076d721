import McapCatalog.Opened

/-!
# The logical catalog

What a catalog is for, without ids, times of writing or lookup tables: which recordings it holds and from what they
were written, which tags the user set on them, which keys failed and why.

* `Logical`, `Effect`, `Effect.apply` — the abstract catalog and the few things that happen to it;
* `Effect.Apart`, `apply_comm` — effects on different recordings commute, so `foldl_apply_perm`: **a list of them
  can be applied in any order**;
* `view` — the logical catalog of a database, and `EffectStep` — a change of the database that refines an effect;
* `effectStep_quarantined`, `effectStep_wrote`, ... — the changes the program makes.
-/

namespace McapCatalog.Builder

open McapCatalog.PyText McapCatalog.PyError McapCatalog.KeyParse McapCatalog.McapSummary
open McapCatalog.Storage McapCatalog.Tables McapCatalog.RowidTable McapCatalog.KeyedRows
open McapCatalog.Connection McapCatalog.CatalogDb

/-! ### The abstract catalog -/

/-- The logical catalog. -/
@[ext] structure Logical where
  files : Dims → Option Written
  overrides : Dims → PyStr → Option (Option PyStr × ℤ)
  failures : PyStr → Option PyStr

/-- What one operation does to the logical catalog. -/
inductive Effect where
  | nothing
  | failure (key text : PyStr)
  | quarantine (dims : Dims) (effKey text : PyStr)
  | write (written : Written)
  | delete (dims : Dims) (key : PyStr)
  deriving DecidableEq

namespace Effect

/-- The catalog after an effect. -/
def apply (c : Logical) : Effect → Logical
  | nothing => c
  | failure key text => { c with failures := Function.update c.failures key (some text) }
  | quarantine dims effKey text =>
    { files := Function.update c.files dims none
      overrides := Function.update c.overrides dims fun _ => none
      failures := Function.update c.failures effKey (some text) }
  | write written =>
    { c with
      files := Function.update c.files written.dims (some written)
      failures := Function.update c.failures written.effKey none }
  | delete dims key =>
    { files := Function.update c.files dims none
      overrides := Function.update c.overrides dims fun _ => none
      failures := Function.update c.failures key none }

/-- The recording an effect is about. -/
def dims : Effect → Option Dims
  | nothing => none
  | failure _ _ => none
  | quarantine dims _ _ => some dims
  | write written => some written.dims
  | delete dims _ => some dims

/-- The key whose failure row an effect sets or clears. -/
def failureKey : Effect → Option PyStr
  | nothing => none
  | failure key _ => some key
  | quarantine _ effKey _ => some effKey
  | write written => some written.effKey
  | delete _ key => some key

/-- The row an effect leaves for the recording it is about. -/
def fileAfter : Effect → Option Written
  | write written => some written
  | _ => none

/-- The text an effect leaves under its failure key. -/
def textAfter : Effect → Option PyStr
  | failure _ text => some text
  | quarantine _ _ text => some text
  | _ => none

theorem apply_files (c : Logical) (e : Effect) (d : Dims) :
    (apply c e).files d = if e.dims = some d then e.fileAfter else c.files d := by
  have hupdate : ∀ (d' : Dims) (v : Option Written),
      Function.update c.files d' v d = if some d' = some d then v else c.files d := by
    intro d' v
    by_cases h : d' = d
    · rw [h, Function.update_self, if_pos rfl]
    · rw [Function.update_of_ne (Ne.symm h), if_neg (fun h' => h (Option.some.inj h'))]
  cases e <;> simp only [apply, dims, fileAfter, hupdate] <;> simp

theorem apply_failures (c : Logical) (e : Effect) (k : PyStr) :
    (apply c e).failures k = if e.failureKey = some k then e.textAfter else c.failures k := by
  have hupdate : ∀ (k' : PyStr) (v : Option PyStr),
      Function.update c.failures k' v k = if some k' = some k then v else c.failures k := by
    intro k' v
    by_cases h : k' = k
    · rw [h, Function.update_self, if_pos rfl]
    · rw [Function.update_of_ne (Ne.symm h), if_neg (fun h' => h (Option.some.inj h'))]
  cases e <;> simp only [apply, failureKey, textAfter, hupdate] <;> simp

/-- Effects on different recordings and different failure keys. -/
def Apart (a b : Effect) : Prop :=
  (∀ d, a.dims = some d → b.dims ≠ some d) ∧ ∀ k, a.failureKey = some k → b.failureKey ≠ some k

theorem Apart.symm {a b : Effect} (h : Apart a b) : Apart b a :=
  ⟨fun d hb ha => h.1 d ha hb, fun k hb ha => h.2 k ha hb⟩

/-- **Effects on different recordings commute.** -/
theorem apply_comm {a b : Effect} (h : Apart a b) (c : Logical) :
    apply (apply c a) b = apply (apply c b) a := by
  have hd : ∀ {d d'}, a.dims = some d → b.dims = some d' → d ≠ d' := by
    rintro d d' ha hb rfl
    exact h.1 d ha hb
  have hk : ∀ {k k'}, a.failureKey = some k → b.failureKey = some k' → k ≠ k' := by
    rintro k k' ha hb rfl
    exact h.2 k ha hb
  cases a <;> cases b <;> simp only [apply, Logical.mk.injEq, true_and] <;>
    first
      | rfl
      | exact Function.update_comm (hk rfl rfl) _ _ _
      | exact ⟨Function.update_comm (hd rfl rfl) _ _ _, Function.update_comm (hk rfl rfl) _ _ _⟩
      | exact ⟨Function.update_comm (hd rfl rfl) _ _ _, Function.update_comm (hd rfl rfl) _ _ _,
          Function.update_comm (hk rfl rfl) _ _ _⟩

/-- **Effects that are pairwise apart can be applied in any order.** -/
theorem foldl_apply_perm {l l' : List Effect} (hp : l.Perm l') (hl : l.Pairwise Apart) (c : Logical) :
    l.foldl apply c = l'.foldl apply c := by
  have hsymm : Std.Symm Apart := ⟨fun _ _ => Apart.symm⟩
  refine hp.foldl_eq' (fun a ha b hb z => ?_) c
  by_cases hab : a = b
  · rw [hab]
  · exact apply_comm (hl.forall ha hb hab) z

/-- Effects about other recordings leave a recording alone. -/
theorem foldl_files_of_ne {l : List Effect} {d : Dims} (h : ∀ e ∈ l, e.dims ≠ some d) (c : Logical) :
    (l.foldl apply c).files d = c.files d := by
  induction l generalizing c with
  | nil => rfl
  | cons e l ih =>
      rw [List.foldl_cons, ih fun e' he' => h e' (List.mem_cons_of_mem _ he'), apply_files,
        if_neg (h e List.mem_cons_self)]

theorem foldl_failures_of_ne {l : List Effect} {k : PyStr} (h : ∀ e ∈ l, e.failureKey ≠ some k) (c : Logical) :
    (l.foldl apply c).failures k = c.failures k := by
  induction l generalizing c with
  | nil => rfl
  | cons e l ih =>
      rw [List.foldl_cons, ih fun e' he' => h e' (List.mem_cons_of_mem _ he'), apply_failures,
        if_neg (h e List.mem_cons_self)]

/-- **The one effect about a recording decides its row.** -/
theorem foldl_files_of_mem {l : List Effect} (hl : l.Pairwise Apart) {e : Effect} (he : e ∈ l) {d : Dims}
    (hd : e.dims = some d) (c : Logical) : (l.foldl apply c).files d = e.fileAfter := by
  induction l generalizing c with
  | nil => exact absurd he List.not_mem_nil
  | cons a l ih =>
      rw [List.pairwise_cons] at hl
      rw [List.foldl_cons]
      rcases List.mem_cons.mp he with rfl | he
      · rw [foldl_files_of_ne fun e' he' => (hl.1 e' he').1 d hd, apply_files, if_pos hd]
      · exact ih hl.2 he _

/-- **The one effect about a failure key decides its text.** -/
theorem foldl_failures_of_mem {l : List Effect} (hl : l.Pairwise Apart) {e : Effect} (he : e ∈ l) {k : PyStr}
    (hk : e.failureKey = some k) (c : Logical) : (l.foldl apply c).failures k = e.textAfter := by
  induction l generalizing c with
  | nil => exact absurd he List.not_mem_nil
  | cons a l ih =>
      rw [List.pairwise_cons] at hl
      rw [List.foldl_cons]
      rcases List.mem_cons.mp he with rfl | he
      · rw [foldl_failures_of_ne fun e' he' => (hl.1 e' he').2 k hk, apply_failures, if_pos hk]
      · exact ih hl.2 he _

end Effect

/-! ### The logical catalog of a database -/

/-- The logical catalog of a database. -/
def view (db : Db) : Logical where
  files dims := (rowOf db dims).map fun r => r.val.origin
  overrides dims k := (rowOf db dims).bind fun r => db.tagsOverride.lookup (r.id, k)
  failures key := (db.catalogFailures.lookup key).map Prod.snd

/-- A change of the database that refines an effect on the logical catalog. -/
structure EffectStep (env : Env) (effect : Effect) (db db' : Db) : Prop where
  inv : CatalogInv env db'
  grow : DimsGrow db db'
  view : view db' = effect.apply (view db)
  others : ∀ d, effect.dims ≠ some d → rowOf db' d = rowOf db d
  keepsId : ∀ d r r', rowOf db d = some r → rowOf db' d = some r' → r'.id = r.id
  outside : ∀ p : FileKey → Bool,
    (∀ d key, effect.dims = some d → fileKey db' d = some key → p key = false) →
      db'.files.rows.filter (fun r => p r.key) = db.files.rows.filter fun r => p r.key

variable {env : Env} {db db' : Db} {dims : Dims} {key : FileKey}

theorem view_onlyDims (hinv : CatalogInv env db) (ho : OnlyDims db db') : view db' = view db := by
  have hrow := rowOf_onlyDims hinv ho
  obtain ⟨_, c, s, r, x, rfl⟩ := ho
  simp only [view, hrow]

/-- New dimension rows are no effect. -/
theorem effectStep_onlyDims (hinv : CatalogInv env db) (ho : OnlyDims db db') : EffectStep env .nothing db db' where
  inv := hinv.onlyDims ho
  grow := ho.grow
  view := view_onlyDims hinv ho
  others d _ := rowOf_onlyDims hinv ho d
  keepsId d r r' hr hr' := by
    rw [rowOf_onlyDims hinv ho, hr] at hr'
    rw [Option.some.inj hr']
  outside p _ := by
    obtain ⟨_, c, s, r, x, rfl⟩ := ho
    rfl

theorem EffectStep.refl (hinv : CatalogInv env db) : EffectStep env .nothing db db :=
  effectStep_onlyDims hinv (OnlyDims.refl db)

/-- An effect after new dimension rows. -/
theorem EffectStep.after_onlyDims {effect : Effect} {db₀ : Db} (hinv : CatalogInv env db₀) (ho : OnlyDims db₀ db)
    (h : EffectStep env effect db db') : EffectStep env effect db₀ db' where
  inv := h.inv
  grow := ho.grow.trans h.grow
  view := by rw [h.view, view_onlyDims hinv ho]
  others d hd := by rw [h.others d hd, rowOf_onlyDims hinv ho]
  keepsId d r r' hr hr' := h.keepsId d r r' (by rw [rowOf_onlyDims hinv ho, hr]) hr'
  outside p hp := by
    rw [h.outside p hp]
    obtain ⟨_, c, s, r, x, rfl⟩ := ho
    rfl

theorem lookup_insert_map {κ : Type} [DecidableEq κ] (t : Rows κ (ℤ × PyStr)) (k : κ) (v : ℤ × PyStr) :
    (fun k' => ((t.insert k v).lookup k').map Prod.snd) =
      Function.update (fun k' => (t.lookup k').map Prod.snd) k (some v.2) := by
  funext k'
  by_cases hk : k' = k
  · rw [hk, Function.update_self, AList.lookup_insert]
    rfl
  · rw [Function.update_of_ne hk, AList.lookup_insert_ne hk]

theorem lookup_erase_map {κ : Type} [DecidableEq κ] (t : Rows κ (ℤ × PyStr)) (k : κ) :
    (fun k' => ((t.erase k).lookup k').map Prod.snd) =
      Function.update (fun k' => (t.lookup k').map Prod.snd) k none := by
  funext k'
  by_cases hk : k' = k
  · rw [hk, Function.update_self, AList.lookup_erase]
    rfl
  · rw [Function.update_of_ne hk, AList.lookup_erase_ne hk]

/-- A recorded failure. -/
theorem effectStep_failure (hinv : CatalogInv env db) (k : PyStr) (now : ℤ) (text : PyStr) :
    EffectStep env (.failure k text) db (Db.upsertFailure k now text db) where
  inv := hinv.failures _ db.buildMetadata
  grow := DimsGrow.of_eq rfl rfl rfl rfl
  view := by
    simp only [Builder.view, Effect.apply, Logical.mk.injEq]
    exact ⟨rfl, rfl, lookup_insert_map db.catalogFailures k (now, text)⟩
  others _ _ := rfl
  keepsId d r r' hr hr' := by
    have hsame : rowOf db d = some r' := hr'
    rw [hr] at hsame
    rw [Option.some.inj hsame]
  outside _ _ := rfl

/-! ### Deleting the row of an identity -/

theorem rowOf_deleteFiles (hkey : fileKey db dims = some key) (d : Dims) :
    rowOf (db.deleteFiles fun r => r.key = key) d = if d = dims then none else rowOf db d := by
  have hfk : fileKey (db.deleteFiles fun r => r.key = key) d = fileKey db d := fileKey_congr rfl rfl rfl rfl d
  have hfind : ∀ k, (db.deleteFiles fun r => r.key = key).files.find k =
      if k = key then none else db.files.find k := by
    intro k
    show (db.files.filter _).find k = _
    rw [Table.find_filter]
    rcases hf : db.files.find k with _ | r
    · simp
    · have hrk := (Table.find_eq_some_iff.mp hf).2
      by_cases hk : k = key <;> simp [hrk, hk]
  rw [rowOf, hfk]
  by_cases hd : d = dims
  · rw [if_pos hd, hd, hkey, Option.bind_some, hfind, if_pos rfl]
  · rw [if_neg hd, rowOf]
    rcases hk : fileKey db d with _ | k
    · rfl
    · have hne : k ≠ key := fun h => hd (fileKey_injective (h ▸ hk) hkey)
      rw [Option.bind_some, Option.bind_some, hfind, if_neg hne]

/-- A deletion of the row of an identity, whatever else happens to the failure rows. -/
theorem effectStep_deleteFiles (hinv : CatalogInv env db) (hkey : fileKey db dims = some key) {effect : Effect}
    (hd : effect.dims = some dims) (failures : Rows PyStr (ℤ × PyStr))
    (happly : effect.apply (view db) =
      { files := Function.update (view db).files dims none
        overrides := Function.update (view db).overrides dims fun _ => none
        failures := fun k => (failures.lookup k).map Prod.snd }) :
    EffectStep env effect db { db.deleteFiles (fun r => r.key = key) with catalogFailures := failures } := by
  have hrow : ∀ d, rowOf { db.deleteFiles (fun r => r.key = key) with catalogFailures := failures } d =
      if d = dims then none else rowOf db d := rowOf_deleteFiles hkey
  refine ⟨(hinv.deleteFiles _).failures failures db.buildMetadata, DimsGrow.of_eq rfl rfl rfl rfl, ?_, ?_, ?_, ?_⟩
  · rw [happly]
    ext1
    · funext d
      show Option.map _ (rowOf _ d) = Function.update (view db).files dims none d
      rw [hrow]
      by_cases hdd : d = dims
      · rw [if_pos hdd, hdd, Function.update_self]
        rfl
      · rw [if_neg hdd, Function.update_of_ne hdd]
        rfl
    · funext d k
      show Option.bind (rowOf _ d) _ = Function.update (view db).overrides dims (fun _ => none) d k
      rw [hrow]
      by_cases hdd : d = dims
      · rw [if_pos hdd, hdd, Function.update_self]
        rfl
      · rw [if_neg hdd, Function.update_of_ne hdd]
        show _ = (rowOf db d).bind _
        rcases hr : rowOf db d with _ | r
        · rfl
        · have hmem := rowOf_eq_some_iff.mp hr
          have hne : r.key ≠ key := fun h => hdd (fileKey_injective hmem.2 (h ▸ hkey))
          show (db.deleteFiles _).tagsOverride.lookup (r.id, k) = _
          rw [lookup_override_deleteFiles, goes_of_get (Table.get_of_mem hmem.1), decide_eq_false hne]
          rfl
    · rfl
  · intro d hd'
    rw [hrow, if_neg]
    rintro rfl
    exact hd' hd
  · intro d r r' hr hr'
    rw [hrow] at hr'
    split at hr'
    · cases hr'
    · rw [hr] at hr'
      rw [Option.some.inj hr']
  · intro p hp
    have hpk : p key = false := hp dims key hd ((fileKey_congr rfl rfl rfl rfl dims).trans hkey)
    show (db.files.rows.filter _).filter _ = _
    rw [List.filter_filter]
    apply List.filter_congr
    intro r _
    by_cases hk : r.key = key
    · rw [hk, hpk, Bool.false_and]
    · simp [hk]

/-- **A quarantine.** -/
theorem effectStep_quarantined (hinv : CatalogInv env db) (hkey : fileKey db dims = some key) (effKey : PyStr) (now : ℤ)
    (text : PyStr) : EffectStep env (.quarantine dims effKey text) db (quarantined key effKey now text db) :=
  effectStep_deleteFiles hinv hkey rfl _ (by
    rw [Effect.apply]
    exact congrArg _ (lookup_insert_map db.catalogFailures effKey (now, text)).symm)

/-- **A deletion on the event path.** -/
theorem effectStep_deleted (hinv : CatalogInv env db) (hkey : fileKey db dims = some key) (k : PyStr) :
    EffectStep env (.delete dims k) db (Db.deleteFailure k (db.deleteFiles fun r => r.key = key)) :=
  effectStep_deleteFiles hinv hkey rfl _ (by
    rw [Effect.apply]
    exact congrArg _ (lookup_erase_map db.catalogFailures k).symm)

/-! ### Writing the row of an identity -/

theorem filter_upsert {κ ρ : Type} [DecidableEq κ] (t : Table κ ρ) (k : κ) (v : ρ) {p : κ → Bool}
    (hp : p k = false) : (t.upsert k v).rows.filter (fun r => p r.key) = t.rows.filter fun r => p r.key := by
  rcases hf : t.find k with _ | r
  · rw [Table.upsert_of_find_none hf]
    show (t.rows ++ [_]).filter _ = _
    rw [List.filter_append, List.filter_cons_of_neg (by simp [hp]), List.filter_nil, List.append_nil]
  · rw [Table.upsert_of_find_some hf]
    obtain ⟨hmem, hkey⟩ := Table.find_eq_some_iff.mp hf
    show (t.rows.map _).filter _ = _
    have hsame : ∀ l : List (Row κ ρ), (∀ r' ∈ l, r'.id = r.id → r' = r) →
        (l.map fun r' => if r'.id = r.id then { r' with val := v } else r').filter (fun r => p r.key) =
          l.filter fun r => p r.key := by
      intro l
      induction l with
      | nil => intro _; rfl
      | cons r' l ih =>
          intro hl
          rw [List.map_cons]
          have hrest := ih fun q hq => hl q (List.mem_cons_of_mem _ hq)
          by_cases hid : r'.id = r.id
          · have hr' := hl r' List.mem_cons_self hid
            rw [if_pos hid, List.filter_cons_of_neg (by simp [hr', hkey, hp]),
              List.filter_cons_of_neg (by simp [hr', hkey, hp]), hrest]
          · rw [if_neg hid, List.filter_cons, List.filter_cons, hrest]
    exact hsame t.rows fun r' hr' hid => t.eq_of_id_eq hr' hmem hid

theorem rowOf_wrote {written : Written} (hw : Wrote env key written db db')
    (hkey : fileKey db written.dims = some key) :
    ∃ now setId blob, ∀ d, rowOf db' d =
      if d = written.dims then some ⟨db.files.upsertId key, key, storedCols written now setId blob⟩
      else rowOf db d := by
  obtain ⟨now, setId, blob, hfiles, _⟩ := hw.files
  refine ⟨now, setId, blob, fun d => ?_⟩
  rw [rowOf, fileKey_congr hw.customers hw.sites hw.robots hw.sources, hfiles]
  by_cases hd : d = written.dims
  · rw [if_pos hd, hd, hkey, Option.bind_some, Table.find_upsert, if_pos rfl]
  · rw [if_neg hd, rowOf]
    rcases hk : fileKey db d with _ | k
    · rfl
    · have hne : k ≠ key := fun h => hd (fileKey_injective (h ▸ hk) hkey)
      rw [Option.bind_some, Option.bind_some, Table.find_upsert, if_neg hne]

/-- The id a write gives to an identity: the one it had, else one that no row has. -/
theorem upsertId_of_rowOf (hkey : fileKey db dims = some key) :
    match rowOf db dims with
    | some r => db.files.upsertId key = r.id
    | none => db.files.get (db.files.upsertId key) = none := by
  rw [rowOf_of_fileKey hkey]
  rcases hf : db.files.find key with _ | r
  · rw [Table.upsertId, Table.idOf_eq_none_iff.mpr hf]
    exact Table.get_nextId _
  · rw [Table.upsertId, Table.idOf, hf]
    rfl

/-- **A committed file transaction.** -/
theorem effectStep_wrote (hinv : CatalogInv env db) {ids : Ids} {written : Written}
    (hids : idsPresent db ids = true) (hkey : fileKey db written.dims = some (ids.key written.dims))
    (hw : Wrote env (ids.key written.dims) written db db') : EffectStep env (.write written) db db' := by
  obtain ⟨now, setId, blob, hrow⟩ := rowOf_wrote hw hkey
  have hown := upsertId_of_rowOf hkey
  refine ⟨hinv.wrote hids hw, DimsGrow.of_eq hw.customers hw.sites hw.robots hw.sources, ?_, ?_, ?_, ?_⟩
  · rw [Effect.apply]
    ext1
    · funext d
      show Option.map _ (rowOf _ d) = Function.update (view db).files written.dims (some written) d
      rw [hrow]
      by_cases hd : d = written.dims
      · rw [if_pos hd, hd, Function.update_self]
        rfl
      · rw [if_neg hd, Function.update_of_ne hd]
        rfl
    · funext d k
      show Option.bind (rowOf _ d) _ = (rowOf db d).bind _
      rw [hrow, hw.tagsOverride]
      by_cases hd : d = written.dims
      · rw [if_pos hd, hd]
        rcases hr : rowOf db written.dims with _ | r
        · -- A new row has a fresh id, which no override refers to.
          rw [hr] at hown
          show db.tagsOverride.lookup (db.files.upsertId _, k) = none
          rcases hl : db.tagsOverride.lookup (db.files.upsertId (ids.key written.dims), k) with _ | o
          · rfl
          · have := hinv.overrideRefs _ k (by rw [hl]; rfl)
            rw [hown] at this
            cases this
        · rw [hr] at hown
          show db.tagsOverride.lookup (db.files.upsertId _, k) = db.tagsOverride.lookup (r.id, k)
          rw [hown]
      · rw [if_neg hd]
    · show (fun k => (db'.catalogFailures.lookup k).map Prod.snd) = _
      rw [hw.catalogFailures]
      exact lookup_erase_map db.catalogFailures written.effKey
  · intro d hd
    rw [hrow, if_neg]
    rintro rfl
    exact hd rfl
  · intro d r r' hr hr'
    rw [hrow] at hr'
    by_cases hd : d = written.dims
    · rw [if_pos hd] at hr'
      rw [hd] at hr
      rw [hr] at hown
      rw [← Option.some.inj hr']
      exact hown
    · rw [if_neg hd, hr] at hr'
      rw [Option.some.inj hr']
  · intro p hp
    obtain ⟨_, _, _, hfiles, _⟩ := hw.files
    have hpk : p (ids.key written.dims) = false :=
      hp _ _ rfl ((fileKey_congr hw.customers hw.sites hw.robots hw.sources _).trans hkey)
    rw [hfiles]
    exact filter_upsert _ _ _ hpk

end McapCatalog.Builder
