import McapCatalog.OrderIndependence
import Mathlib.Logic.Relation

/-!
# Catalogued or failed

A recording should not be catalogued and failed at once.  Rows are found by the parsed identity and failures by a
string, and one identity can go by several strings: the object's own key, the key its file carries, the same key with
a leading slash.  A write clears the failure under one of them only.

* `NameOf` — the strings a recording goes by in a source;
* `NotBoth` — no recording of a source has a row and, under any of its names, a failure;
* `Effect.Clear`, `notBoth_apply_iff` — **an effect keeps this exactly if it writes no row past a failure under
  another name and records no failure under a name of another recording**;
* `Op`, `ClearMove` — completed operations over a source that changes between them;
* `notBoth_of_clear` — **runs of clear moves never reach a recording that is both**;
* `flatUpload_both` — a run that does.
-/

namespace McapCatalog.Builder

open McapCatalog.PyText McapCatalog.PyError McapCatalog.KeyParse McapCatalog.McapSummary
open McapCatalog.Storage McapCatalog.Tables McapCatalog.RowidTable McapCatalog.KeyedRows
open McapCatalog.Connection McapCatalog.CatalogDb McapCatalog.Reconcile McapCatalog.Worker
open McapCatalog.SurvivingState McapCatalog.SurvivingState.Comp
open Relation

/-! ### The names of a recording -/

/-- The source has an object under the key. -/
def HasObject (source : Source) (key : PyStr) : Prop := ∃ stat, source.stat 0 key = .ok (some stat)

/-- A name of a recording: the key of an object that resolves to it, or the effective key it resolves by. -/
def NameOf (source : Source) (dims : Dims) (name : PyStr) : Prop :=
  ∃ key effKey, HasObject source key ∧ resolution source key = some (dims, effKey) ∧ (name = key ∨ name = effKey)

/-- No object's recording has a row and a failure. -/
def NotBoth (source : Source) (c : Logical) : Prop :=
  ∀ dims name, NameOf source dims name → c.files dims ≠ none → c.failures name = none

/-- **Neither**: in terms of the objects and the two keys of each. -/
theorem notBoth_iff {source : Source} {c : Logical} :
    NotBoth source c ↔ ∀ key dims effKey, HasObject source key → resolution source key = some (dims, effKey) →
      ¬(c.files dims ≠ none ∧ (c.failures key ≠ none ∨ c.failures effKey ≠ none)) := by
  constructor
  · rintro h key dims effKey hobject hres ⟨hrow, hfailed | hfailed⟩
    · exact hfailed (h dims key ⟨key, effKey, hobject, hres, Or.inl rfl⟩ hrow)
    · exact hfailed (h dims effKey ⟨key, effKey, hobject, hres, Or.inr rfl⟩ hrow)
  · intro h dims name hname hrow
    obtain ⟨key, effKey, hobject, hres, hnamed⟩ := hname
    by_contra hfailed
    apply h key dims effKey hobject hres
    cases hnamed with
    | inl hkey => exact ⟨hrow, Or.inl (hkey ▸ hfailed)⟩
    | inr heff => exact ⟨hrow, Or.inr (heff ▸ hfailed)⟩

/-! ### Clear effects -/

/-- The effect does not make a recording both: a write leaves no failure under another name, and a failure is not
recorded under a name of another recording that has a row. -/
def Effect.Clear (source : Source) (c : Logical) : Effect → Prop
  | .nothing => True
  | .failure key _ => ∀ dims, NameOf source dims key → c.files dims = none
  | .quarantine dims effKey _ => ∀ d, d ≠ dims → NameOf source d effKey → c.files d = none
  | .write written => ∀ name, NameOf source written.dims name → name ≠ written.effKey → c.failures name = none
  | .delete _ _ => True

variable {source : Source} {c : Logical}

/-- An effect that only ever loses rows and clears failures. -/
theorem notBoth_of_less {c' : Logical} (h : NotBoth source c) (hfiles : ∀ d, c'.files d ≠ none → c.files d ≠ none)
    (hfailures : ∀ k, c.failures k = none → c'.failures k = none) : NotBoth source c' :=
  fun d name hname hrow => hfailures name (h d name hname (hfiles d hrow))

/-- **An effect keeps the recordings apart exactly if it is clear.** -/
theorem notBoth_apply_iff (h : NotBoth source c) (effect : Effect) :
    NotBoth source (effect.apply c) ↔ effect.Clear source c := by
  cases effect with
  | nothing => exact iff_of_true h trivial
  | delete dims key =>
      refine iff_of_true (notBoth_of_less h (fun d hrow hnone => hrow ?_) fun k hnone => ?_) trivial
      · show Function.update c.files dims none d = none
        rw [Function.update_apply, hnone, ite_self]
      · show Function.update c.failures key none k = none
        rw [Function.update_apply, hnone, ite_self]
  | failure key text =>
      constructor
      · intro hafter dims hname
        by_contra hrow
        have hnone : Function.update c.failures key (some text) key = none := hafter dims key hname hrow
        rw [Function.update_self] at hnone
        cases hnone
      · intro hclear d name hname hrow
        have hne : name ≠ key := fun heq => hrow (hclear d (heq ▸ hname))
        show Function.update c.failures key (some text) name = none
        rw [Function.update_of_ne hne]
        exact h d name hname hrow
  | quarantine dims effKey text =>
      constructor
      · intro hafter d hd hname
        by_contra hrow
        have hkept : Function.update c.files dims none d ≠ none := by rwa [Function.update_of_ne hd]
        have hnone : Function.update c.failures effKey (some text) effKey = none := hafter d effKey hname hkept
        rw [Function.update_self] at hnone
        cases hnone
      · intro hclear d name hname hrow
        have hrow' : Function.update c.files dims none d ≠ none := hrow
        have hd : d ≠ dims := by
          rintro rfl
          exact hrow' (Function.update_self ..)
        rw [Function.update_of_ne hd] at hrow'
        have hne : name ≠ effKey := fun heq => hrow' (hclear d hd (heq ▸ hname))
        show Function.update c.failures effKey (some text) name = none
        rw [Function.update_of_ne hne]
        exact h d name hname hrow'
  | write written =>
      constructor
      · intro hafter name hname hne
        have hrow : Function.update c.files written.dims (some written) written.dims ≠ none := by
          rw [Function.update_self]
          exact fun hw => by cases hw
        have hnone : Function.update c.failures written.effKey none name = none :=
          hafter written.dims name hname hrow
        rwa [Function.update_of_ne hne] at hnone
      · intro hclear d name hname hrow
        show Function.update c.failures written.effKey none name = none
        by_cases hkey : name = written.effKey
        · rw [hkey, Function.update_self]
        · rw [Function.update_of_ne hkey]
          by_cases hd : d = written.dims
          · exact hclear name (hd ▸ hname) hkey
          · have hrow' : Function.update c.files written.dims (some written) d ≠ none := hrow
            rw [Function.update_of_ne hd] at hrow'
            exact h d name hname hrow'

/-- Effects one after the other, each clear where it is applied. -/
def ClearAll (source : Source) : Logical → List Effect → Prop
  | _, [] => True
  | c, effect :: effects => effect.Clear source c ∧ ClearAll source (effect.apply c) effects

theorem notBoth_foldl {effects : List Effect} (h : NotBoth source c) (hclear : ClearAll source c effects) :
    NotBoth source (effects.foldl Effect.apply c) := by
  induction effects generalizing c with
  | nil => exact h
  | cons effect effects ih => exact ih ((notBoth_apply_iff h effect).mpr hclear.1) hclear.2

/-- Losing rows never makes a recording both. -/
theorem notBoth_listedOnly (h : NotBoth source c) (listed : Dims → Prop) [DecidablePred listed] :
    NotBoth source (c.listedOnly listed) := by
  refine notBoth_of_less h (fun d hrow hnone => hrow ?_) fun _ hnone => hnone
  show (if listed d then c.files d else none) = none
  rw [hnone, ite_self]

/-! ### Runs -/

/-- The writer's world and what its source holds. -/
structure Stage where
  source : Source
  world : World

/-- What happens in a run: the source changes, or an operation completes. -/
inductive Op where
  | change (source : Source)
  | catalogObject (key : PyStr) (stat : Option Stat)
  | applyExtract (ex : Extract)
  | deleteByKey (key : PyStr)
  | fullReconcile (workers : Workers)

/-- The stage after it; the source does not change while an operation runs. -/
inductive Op.Completes (env : Env) : Op → Stage → Stage → Prop where
  | change (s : Stage) (source : Source) : Completes env (.change source) s ⟨source, s.world⟩
  | catalogObject {s : Stage} (hs : s.source.Unchanging) (key : PyStr) (stat : Option Stat)
      {result : CatalogResult} {w' : World}
      (h : Builder.catalogObject env key s.source stat s.world = (.ok result, w')) :
      Completes env (.catalogObject key stat) s ⟨s.source, w'⟩
  | applyExtract {s : Stage} (ex : Extract) {result : CatalogResult} {w' : World}
      (h : Builder.applyExtract env ex s.world = (.ok result, w')) :
      Completes env (.applyExtract ex) s ⟨s.source, w'⟩
  | deleteByKey {s : Stage} (key : PyStr) {deleted : Bool} {w' : World}
      (h : Builder.deleteByKey key s.world = (.ok deleted, w')) :
      Completes env (.deleteByKey key) s ⟨s.source, w'⟩
  | fullReconcile {s : Stage} (hs : s.source.Unchanging) (workers : Workers) {tally : Tally} {w' : World}
      (h : Reconcile.fullReconcile env s.source workers s.world = (.ok tally, w')) :
      Completes env (.fullReconcile workers) s ⟨s.source, w'⟩

/-- **The condition.**  A change of the source gives no recording that has a row a name that has a failure; an
operation's effects are clear. -/
def Op.Clear (op : Op) (s : Stage) : Prop :=
  let c := view s.world.conn.committed
  match op with
  | .change source => ∀ dims name, NameOf source dims name → ¬NameOf s.source dims name →
      c.files dims ≠ none → c.failures name = none
  | .catalogObject key stat => ∀ result effect,
      catalogObjectEffect key s.source stat c s.world.clock = .ok (result, effect) → effect.Clear s.source c
  | .applyExtract ex => ∀ result effect, effectOf ex = .ok (result, effect) → effect.Clear s.source c
  | .deleteByKey _ => True
  | .fullReconcile _ => ∀ (listings : List Listing) (order : List Job) (results : List (CatalogResult × Effect)),
      s.source.listAll 0 = .ok listings → order.Perm (jobsOf s.source c listings) →
        Come (order.map (extracted s.source)) results →
          ClearAll s.source c (effectsOf s.source c listings results)

/-- Something completes. -/
def Moves (env : Env) (s s' : Stage) : Prop := ∃ op : Op, op.Completes env s s'

/-- Something completes that meets the condition. -/
def ClearMove (env : Env) (s s' : Stage) : Prop := ∃ op : Op, op.Completes env s s' ∧ op.Clear s

variable {env : Env}

/-- What a run keeps: the writer is between operations, the catalog is well formed, and no recording is both. -/
structure Stage.Sound (env : Env) (s : Stage) : Prop where
  opened : ∃ db t, s.world = viewing db db t ∧ CatalogInv env db
  notBoth : NotBoth s.source (view s.world.conn.committed)

/-- An operation that refines a clear effect keeps a stage sound. -/
theorem sound_of_refines {α : Type} {db : Db} {t : ℕ} {m : Py α} {outcome : Except PyErr (α × Effect)} {a : α}
    {w' : World} (hm : Refines env db t m outcome) (hrun : m (viewing db db t) = (.ok a, w'))
    (h : NotBoth source (view db))
    (hclear : ∀ (result : α) (effect : Effect), outcome = .ok (result, effect) → effect.Clear source (view db)) :
    Stage.Sound env ⟨source, w'⟩ := by
  rcases outcome with e | ⟨result, effect⟩
  · obtain ⟨_, hw⟩ := hm
    rw [hw] at hrun
    cases hrun
  · obtain ⟨db', t', hw, hstep⟩ := hm
    rw [hw] at hrun
    cases hrun
    refine ⟨⟨db', t', rfl, hstep.inv⟩, ?_⟩
    show NotBoth source (view db')
    rw [hstep.view]
    exact (notBoth_apply_iff h effect).mpr (hclear _ effect rfl)

/-- **A clear move keeps a stage sound.** -/
theorem sound_step (hinj : FingerprintInjective env) {s s' : Stage} (h : s.Sound env) (hmove : ClearMove env s s') :
    s'.Sound env := by
  obtain ⟨source, w⟩ := s
  obtain ⟨⟨db, t, hw, hinv⟩, hboth⟩ := h
  obtain ⟨op, hop, hclear⟩ := hmove
  simp only at hw
  subst hw
  cases hop with
  | change _ source' =>
      refine ⟨⟨db, t, rfl, hinv⟩, fun dims name hname hrow => ?_⟩
      by_cases hold : NameOf source dims name
      · exact hboth dims name hold hrow
      · exact hclear dims name hname hold hrow
  | catalogObject _ key stat hrun =>
      exact sound_of_refines (refines_catalogObject hinj hinv key source stat t) hrun hboth hclear
  | applyExtract ex hrun => exact sound_of_refines (refines_applyExtract hinj hinv ex t) hrun hboth hclear
  | deleteByKey key hrun =>
      refine sound_of_refines (refines_deleteByKey hinv key t) hrun hboth fun result effect heffect => ?_
      rw [deleteEffect] at heffect
      split at heffect
      · cases heffect
        trivial
      · split at heffect
        · cases heffect
          trivial
        · cases (unlessError_eq_ok heffect).2
          trivial
  | fullReconcile hs workers hrun =>
      rcases hlist : source.listAll 0 with e | listings
      · have hask : ask source.listAll (viewing db db t) = (.error e, viewing db db (t + 1)) := by
          rw [ask_apply, ← hlist, hs.listAll 0 t]
          rfl
        have herr := hrun.symm.trans (bind_of_error hask)
        cases herr
      rcases fullReconcile_viewing hinj hs hinv hlist workers t with
        ⟨_, e, v, herr⟩ | ⟨order, results, db', t', hok, hdone⟩
      · rw [herr] at hrun
        cases hrun
      · rw [hok] at hrun
        cases hrun
        refine ⟨⟨db', t', rfl, hdone.inv⟩, ?_⟩
        show NotBoth source (view db')
        rw [hdone.view]
        exact notBoth_listedOnly (notBoth_foldl hboth (hclear listings order results hlist hdone.jobs hdone.come)) _

/-- **No recording is catalogued and failed.**  In every run from an empty catalog whose moves all meet the
condition, in every stage reached. -/
theorem notBoth_of_clear (hinj : FingerprintInjective env) {source : Source} {t : ℕ} {s : Stage}
    (hrun : ReflTransGen (ClearMove env) ⟨source, opened Db.empty t⟩ s) :
    ∀ key dims effKey, HasObject s.source key → resolution s.source key = some (dims, effKey) →
      ¬((view s.world.conn.committed).files dims ≠ none ∧
        ((view s.world.conn.committed).failures key ≠ none ∨ (view s.world.conn.committed).failures effKey ≠ none)) := by
  have hstart : Stage.Sound env ⟨source, opened Db.empty t⟩ :=
    ⟨⟨Db.empty, t, opened_eq Db.empty t, catalogInv_empty env⟩, fun _ _ _ _ => rfl⟩
  have hsound : s.Sound env := by
    induction hrun with
    | refl => exact hstart
    | tail _ hmove ih => exact sound_step hinj ih hmove
  exact notBoth_iff.mp hsound.notBoth

/-! ### A recording that is both -/

/-- A file at the top of a watched directory. -/
def flatKey : PyStr := py "flat.mcap"

/-- A directory with that file, which may carry the key it is destined for. -/
def flatFs (intended : Option PyStr) (mtimeNs : ℤ) : LocalFs where
  stat _ key := if key = flatKey then some (5, mtimeNs) else none
  openSummary _ _ := .ok (some twoChannelSummary)
  s3Key _ key := .ok (if key = flatKey then intended else none)
  files _ := [flatKey]
  stable _ _ := true

theorem unchanging_localSource_flatFs (intended : Option PyStr) (mtimeNs : ℤ) :
    (localSource (flatFs intended mtimeNs)).Unchanging :=
  ⟨fun _ _ => rfl, fun _ _ => rfl, fun _ _ => rfl, fun _ _ => rfl⟩

/-- The file is uploaded without a key. -/
def firstUpload : Except PyErr CatalogResult × World :=
  Builder.catalogObject oneTopicEnv flatKey (localSource (flatFs none 1)) none emptyWorld

/-- Then it is uploaded with one. -/
def secondUpload : Except PyErr CatalogResult × World :=
  Builder.catalogObject oneTopicEnv flatKey (localSource (flatFs (some sampleKey) 2)) none firstUpload.2

/-- The directory and the writer afterwards. -/
def bothStage : Stage := ⟨localSource (flatFs (some sampleKey) 2), secondUpload.2⟩

/-- How each upload ends, and what is there afterwards. -/
theorem ends_flatUpload : firstUpload.1 = .ok ⟨.failed, py "unparseable key"⟩ ∧ secondUpload.1 = .ok ⟨.cataloged, []⟩ ∧
    bothStage.source.stat 0 flatKey = .ok (some ⟨5, localEtag 5 2, 2⟩) ∧
    resolution bothStage.source flatKey = some (sampleDims, sampleKey) ∧
    ((view bothStage.world.conn.committed).files sampleDims).isSome = true ∧
    ((view bothStage.world.conn.committed).failures flatKey).isSome = true := by
  decide +kernel

theorem moves_firstUpload :
    Moves oneTopicEnv ⟨localSource (flatFs none 1), emptyWorld⟩ ⟨localSource (flatFs none 1), firstUpload.2⟩ := by
  have hrun : firstUpload = (.ok ⟨.failed, py "unparseable key"⟩, firstUpload.2) := by rw [← ends_flatUpload.1]
  exact ⟨_, .catalogObject (unchanging_localSource_flatFs none 1) flatKey none hrun⟩

theorem moves_secondUpload :
    Moves oneTopicEnv ⟨localSource (flatFs (some sampleKey) 2), firstUpload.2⟩
      ⟨localSource (flatFs (some sampleKey) 2), secondUpload.2⟩ := by
  have hrun : secondUpload = (.ok ⟨.cataloged, []⟩, secondUpload.2) := by rw [← ends_flatUpload.2.1]
  exact ⟨_, .catalogObject (unchanging_localSource_flatFs (some sampleKey) 2) flatKey none hrun⟩

/-- The failure under the file's path outlives the row under the key it carries. -/
theorem flatUpload_both :
    ReflTransGen (Moves oneTopicEnv) ⟨localSource (flatFs none 1), emptyWorld⟩ bothStage ∧
      HasObject bothStage.source flatKey ∧ ∃ dims, resolution bothStage.source flatKey = some (dims, sampleKey) ∧
        ((view bothStage.world.conn.committed).files dims).isSome ∧
        ((view bothStage.world.conn.committed).failures flatKey).isSome := by
  have hrun : ReflTransGen (Moves oneTopicEnv) ⟨localSource (flatFs none 1), emptyWorld⟩ bothStage :=
    ((ReflTransGen.single moves_firstUpload).tail ⟨_, .change _ (localSource (flatFs (some sampleKey) 2))⟩).tail
      moves_secondUpload
  obtain ⟨_, _, hstat, hends⟩ := ends_flatUpload
  exact ⟨hrun, ⟨_, hstat⟩, sampleDims, hends⟩

/-! ### A recording that is repaired -/

/-- A bucket with one object. -/
def oneKeySource (o : S3Object) : Source := s3Source (fun _ => (∅ : Bucket).insert sampleKey o) []

/-- An object without a summary section. -/
def brokenObject : S3Object := ⟨py "xyz", 100, 4, fun _ => .ok none⟩

/-- A readable object. -/
def readableObject : S3Object := ⟨py "abc", 100, 5, fun _ => .ok (some twoChannelSummary)⟩

theorem unchanging_oneKeySource (o : S3Object) : (oneKeySource o).Unchanging :=
  ⟨fun _ _ => rfl, fun _ _ => rfl, fun _ _ => rfl, fun _ _ => rfl⟩

/-- Its recording goes by one name only. -/
theorem eq_of_nameOf_oneKeySource {o : S3Object} {d : Dims} {name : PyStr} (h : NameOf (oneKeySource o) d name) :
    name = sampleKey := by
  obtain ⟨key, effKey, ⟨stat, hstat⟩, hres, hname⟩ := h
  have hkey : key = sampleKey := by
    by_contra hne
    have hlookup : ((∅ : Bucket).insert sampleKey o).lookup key = none := by
      rw [AList.lookup_insert_ne hne, AList.lookup_empty]
    have hnone : (oneKeySource o).stat 0 key = .ok none := by
      show Except.ok (Option.map S3Object.stat (((∅ : Bucket).insert sampleKey o).lookup key)) = _
      rw [hlookup]
      rfl
    rw [hnone] at hstat
    cases hstat
  have heff : effKey = key := by
    rw [resolution, trustedDims] at hres
    split at hres
    · cases hres
    · split at hres
      · cases hres
      · cases hres
        rfl
  cases hname with
  | inl h => rw [h, hkey]
  | inr h => rw [h, heff, hkey]

/-- Without rows an effect is clear if recordings go by no name but the one it is about. -/
theorem clear_of_rowless {effect : Effect} {k : PyStr} (hfiles : ∀ d, c.files d = none)
    (hkey : effect.failureKey = some k) (hname : ∀ d name, NameOf source d name → name = k) :
    effect.Clear source c := by
  cases effect with
  | nothing => trivial
  | failure key text => exact fun d _ => hfiles d
  | quarantine dims effKey text => exact fun d _ _ => hfiles d
  | write written => exact fun name h hne => absurd ((hname _ name h).trans (Option.some.inj hkey).symm) hne
  | delete dims key => trivial

theorem files_of_rowless {db : Db} (h : db.files.rows.length = 0) (d : Dims) : (view db).files d = none := by
  show (rowOf db d).map _ = none
  rw [Option.map_eq_none_iff, Option.eq_none_iff_forall_not_mem]
  intro r hr
  have hmem := (rowOf_eq_some_iff.mp hr).1
  rw [List.eq_nil_of_length_eq_zero h] at hmem
  exact List.not_mem_nil hmem

/-- An upload of that object. -/
def upload (o : S3Object) (w : World) : Except PyErr CatalogResult × World :=
  Builder.catalogObject oneTopicEnv sampleKey (oneKeySource o) none w

/-- An upload whose effect clears or sets the failure of that object, onto a catalog without rows. -/
theorem clearMove_upload {o : S3Object} {w : World} {result : CatalogResult} (hrun : (upload o w).1 = .ok result)
    (hrows : w.conn.committed.files.rows.length = 0)
    (heffect : (catalogObjectEffect sampleKey (oneKeySource o) none (view w.conn.committed) w.clock).toOption.map
      (fun r => r.2.failureKey) = some (some sampleKey)) :
    ClearMove oneTopicEnv ⟨oneKeySource o, w⟩ ⟨oneKeySource o, (upload o w).2⟩ := by
  have hpair : upload o w = (.ok result, (upload o w).2) := by rw [← hrun]
  refine ⟨_, .catalogObject (unchanging_oneKeySource o) sampleKey none hpair, fun r effect hr => ?_⟩
  rw [hr] at heffect
  exact clear_of_rowless (files_of_rowless hrows) (Option.some.inj heffect) fun _ _ => eq_of_nameOf_oneKeySource

/-- The broken object is uploaded. -/
def brokenUpload : World := (upload brokenObject emptyWorld).2

/-- The readable one takes its place. -/
def repairedUpload : World := (upload readableObject brokenUpload).2

/-- How each of the two uploads ends, and which failure it sets or clears. -/
theorem ends_upload :
    ((upload brokenObject emptyWorld).1 = .ok ⟨.failed, py "no summary/statistics in MCAP"⟩ ∧
      emptyWorld.conn.committed.files.rows.length = 0 ∧
      (catalogObjectEffect sampleKey (oneKeySource brokenObject) none (view emptyWorld.conn.committed)
        emptyWorld.clock).toOption.map (fun r => r.2.failureKey) = some (some sampleKey)) ∧
    ((upload readableObject brokenUpload).1 = .ok ⟨.cataloged, []⟩ ∧
      brokenUpload.conn.committed.files.rows.length = 0 ∧
      (catalogObjectEffect sampleKey (oneKeySource readableObject) none (view brokenUpload.conn.committed)
        brokenUpload.clock).toOption.map (fun r => r.2.failureKey) = some (some sampleKey)) ∧
    repairedUpload.conn.committed.files.rows.length = 1 := by
  decide +kernel

/-- Afterwards the recording has a row, and no failure under any of its names. -/
theorem notBoth_of_clear_repaired : repairedUpload.conn.committed.files.rows.length = 1 ∧
    ∀ key dims effKey, HasObject (oneKeySource readableObject) key →
      resolution (oneKeySource readableObject) key = some (dims, effKey) →
      ¬((view repairedUpload.conn.committed).files dims ≠ none ∧
        ((view repairedUpload.conn.committed).failures key ≠ none ∨
          (view repairedUpload.conn.committed).failures effKey ≠ none)) := by
  obtain ⟨⟨hfailed, hempty, hsets⟩, ⟨hcataloged, hrows, hclears⟩, hone⟩ := ends_upload
  have hbroken : ClearMove oneTopicEnv ⟨oneKeySource brokenObject, emptyWorld⟩
      ⟨oneKeySource brokenObject, brokenUpload⟩ := clearMove_upload hfailed hempty hsets
  have hchange : ClearMove oneTopicEnv ⟨oneKeySource brokenObject, brokenUpload⟩
      ⟨oneKeySource readableObject, brokenUpload⟩ :=
    ⟨.change (oneKeySource readableObject), .change _ _, fun d _ _ _ hrow => absurd (files_of_rowless hrows d) hrow⟩
  have hrepaired : ClearMove oneTopicEnv ⟨oneKeySource readableObject, brokenUpload⟩
      ⟨oneKeySource readableObject, repairedUpload⟩ := clearMove_upload hcataloged hrows hclears
  have hrun : ReflTransGen (ClearMove oneTopicEnv) ⟨oneKeySource brokenObject, opened Db.empty 0⟩
      ⟨oneKeySource readableObject, repairedUpload⟩ :=
    ((ReflTransGen.single hbroken).tail hchange).tail hrepaired
  have h := notBoth_of_clear fingerprintInjective_oneTopicEnv hrun
  dsimp only at h
  exact ⟨hone, h⟩

end McapCatalog.Builder
