import McapCatalog.Cataloging
import McapCatalog.Convergence
import McapCatalog.Exits
import McapCatalog.KeyGrammar
import McapCatalog.Notifications
import McapCatalog.WorkerRuns

/-!
# The notifications of a bucket

A bucket whose objects come and go under the eyes of a builder that hears of it by notifications, each at least once and in
no order.  The worker looks for the object before it catalogs it, and does not before it deletes its row.

* `Change`, `BucketHistory` — what happens to a bucket, and what it holds at each moment;
* `shows_cataloged`, `shows_vanished`, `shows_deleted` — what an item leaves of its identity; `frame_catalog`, of the others;
* `BucketState`, `BucketStep` — the notifications are put on the work queue, from which the worker takes them while the bucket
  changes;
* `Account`, `BucketStep.account` — what the items taken so far say about the rows;
* `mirrors_iff` — **in the end the catalog mirrors the bucket exactly if each object was created last**;
* `not_converges` — a removal that comes again after the object was put back.
-/

namespace McapCatalog.EventPath

open McapCatalog.PyText McapCatalog.PyError McapCatalog.KeyParse McapCatalog.McapSummary McapCatalog.Storage
open McapCatalog.UrlText McapCatalog.Tables McapCatalog.RowidTable McapCatalog.KeyedRows
open McapCatalog.Connection McapCatalog.CatalogDb McapCatalog.Builder McapCatalog.Reconcile McapCatalog.Worker McapCatalog.Runs
open McapCatalog.Discovery (S3Record enqueueRecords s3EventProducer)
open McapCatalog.SurvivingState McapCatalog.SurvivingState.Comp
open Relation

/-! ### Objects -/

/-- `resolve_key_dims` gives the key these fields, and it is text that can be stored. -/
structure HiveKey (key : PyStr) (dims : Dims) : Prop where
  trusted : trustedDims none key = some (dims, key)
  encodable : encodable key = true

/-- The object can be read, and its facts can be stored. -/
def Readable (key : PyStr) (dims : Dims) (o : S3Object) : Prop :=
  ∃ parsed summary, o.parse o.contentLength = .ok parsed ∧ summaryFromStream parsed = .ok summary ∧
    transactionError true ⟨dims, key, o.stat, summary⟩ = none

section Keys

variable {key : PyStr} {dims dims' : Dims}

theorem HiveKey.parses (h : HiveKey key dims) : parseHiveKey key = some dims := by
  obtain ⟨hwell, hrebuilt, _⟩ := (trustedDims_none_iff key dims key).mp h.trusted
  exact parseHiveKey_of_rebuilt hwell hrebuilt

theorem HiveKey.binds (h : HiveKey key dims) : bindError (nameParams dims) = none ∧ bindError (compositeParams dims) = none := by
  have hresolves : resolution (s3Source (fun _ => ∅) []) key = some (dims, key) := h.trusted
  exact bindError_names hresolves h.encodable

theorem HiveKey.dims_eq (h : HiveKey key dims) (h' : parseHiveKey key = some dims') : dims = dims' :=
  Option.some.inj (h.parses.symm.trans h')

/-- Its name is one that the producer lets through. -/
theorem HiveKey.endsWith_mcap (h : HiveKey key dims) : endsWith key (py ".mcap") = true := by
  obtain ⟨hwell, hrebuilt, _⟩ := (trustedDims_none_iff key dims key).mp h.trusted
  have hfilename : dims.filename <:+ rebuildHiveKey dims := by
    simp only [rebuildHiveKey, ← List.append_assoc]
    exact List.suffix_append _ _
  rw [← hrebuilt] at hfilename
  exact List.isSuffixOf_iff_suffix.mpr
    (((List.isSuffixOf_iff_suffix.mp hwell.filename.2.1).trans hfilename).trans (List.dropWhile_suffix _))

end Keys

/-! ### Histories -/

/-- A change of a bucket. -/
inductive Change where
  | put (key : PyStr) (object : S3Object)
  | remove (key : PyStr)

namespace Change

/-- The key it is about. -/
def key : Change → PyStr
  | put key _ => key
  | remove key => key

/-- What the key has after it. -/
def content : Change → Option S3Object
  | put _ object => some object
  | remove _ => none

/-- The bucket after it. -/
def apply (bucket : Bucket) : Change → Bucket
  | put key object => bucket.insert key object
  | remove key => bucket.erase key

/-- What the name of its notification begins with. -/
def eventName : Change → PyStr
  | put _ _ => py "ObjectCreated"
  | remove _ => py "ObjectRemoved"

/-- The event of its notification. -/
def item : Change → WorkItem
  | put key _ => .catalog key
  | remove key => .delete key

/-- It is about a recording with a Hive key. -/
def OfRecording (change : Change) : Prop :=
  ∃ dims, HiveKey change.key dims ∧ ∀ o, change.content = some o → Readable change.key dims o

theorem lookup_apply (bucket : Bucket) (change : Change) (key : PyStr) :
    (change.apply bucket).lookup key = if change.key = key then change.content else bucket.lookup key := by
  cases change with
  | put key' object =>
      show (bucket.insert key' object).lookup key = if key' = key then some object else bucket.lookup key
      by_cases h : key' = key
      · rw [if_pos h, h]
        exact AList.lookup_insert _
      · rw [if_neg h]
        exact AList.lookup_insert_ne (Ne.symm h)
  | remove key' =>
      show (bucket.erase key').lookup key = if key' = key then none else bucket.lookup key
      by_cases h : key' = key
      · rw [if_pos h, h]
        exact AList.lookup_erase _ _
      · rw [if_neg h]
        exact AList.lookup_erase_ne (Ne.symm h)

end Change

/-- What a bucket holds after changes. -/
def contents (changes : List (ℕ × Change)) : Bucket := changes.foldl (fun bucket c => c.2.apply bucket) ∅

/-- What happens to a bucket of recordings: changes, with their moments and in order. -/
structure BucketHistory where
  changes : List (ℕ × Change)
  ordered : changes.Pairwise fun c c' => c.1 ≤ c'.1
  recordings : ∀ c ∈ changes, c.2.OfRecording

/-- What the bucket holds at a moment. -/
def BucketHistory.bucketAt (h : BucketHistory) (t : ℕ) : Bucket := contents (h.changes.filter fun c => c.1 ≤ t)

/-- What it holds in the end. -/
def BucketHistory.final (h : BucketHistory) : Bucket := contents h.changes

/-- In a list in order, the last element of a kind is the latest. -/
theorem exists_last {α : Type*} {l : List (ℕ × α)} (hordered : l.Pairwise fun e e' => e.1 ≤ e'.1) (p : ℕ × α → Bool)
    {e : ℕ × α} (he : e ∈ l) (hp : p e = true) :
    ∃ before last, l.filter p = before ++ [last] ∧ last ∈ l ∧ p last = true ∧ ∀ e ∈ l, p e = true → e.1 ≤ last.1 := by
  have hmem : ∀ {e}, e ∈ l → p e = true → e ∈ l.filter p := fun he hp => List.mem_filter.mpr ⟨he, hp⟩
  have hsorted := hordered.filter p
  rcases List.eq_nil_or_concat' (l.filter p) with hnil | ⟨before, last, hlast⟩
  · have hnone := hmem he hp
    rw [hnil] at hnone
    cases hnone
  · obtain ⟨hl, hplast⟩ := List.mem_filter.mp (show last ∈ l.filter p by
      rw [hlast]
      exact List.mem_append_right _ List.mem_cons_self)
    refine ⟨before, last, hlast, hl, hplast, fun e he hp => ?_⟩
    have hmember := hmem he hp
    rw [hlast] at hmember hsorted
    cases List.mem_append.mp hmember with
    | inl hbefore => exact (List.pairwise_append.mp hsorted).2.2 e hbefore last List.mem_cons_self
    | inr hself => rw [List.mem_singleton.mp hself]

section Contents

variable {h : BucketHistory} {key : PyStr} {o : S3Object} {t : ℕ}

/-- The last change of a key decides. -/
theorem lookup_contents (changes : List (ℕ × Change)) (key : PyStr) : (contents changes).lookup key =
    ((changes.filter fun c => c.2.key = key).getLast?).bind fun c => c.2.content := by
  induction changes using List.reverseRecOn with
  | nil => rfl
  | append_singleton changes c ih =>
      rw [contents, List.foldl_append, List.foldl_cons, List.foldl_nil, Change.lookup_apply, List.filter_append]
      by_cases hkey : c.2.key = key
      · rw [if_pos hkey, List.filter_cons_of_pos (by simpa using hkey), List.filter_nil, List.getLast?_concat]
        rfl
      · rw [if_neg hkey, List.filter_cons_of_neg (by simpa using hkey), List.filter_nil, List.append_nil]
        exact ih

/-- From the moment of its last change on, a key has what it has in the end. -/
theorem lookup_bucketAt (hpast : ∀ c ∈ h.changes, c.2.key = key → c.1 ≤ t) :
    (h.bucketAt t).lookup key = h.final.lookup key := by
  rw [BucketHistory.bucketAt, BucketHistory.final, lookup_contents, lookup_contents, List.filter_filter]
  refine congrArg (fun l : List (ℕ × Change) => l.getLast?.bind fun c => c.2.content) (List.filter_congr fun c hc => ?_)
  by_cases hkey : c.2.key = key
  · simp [hkey, hpast c hc hkey]
  · simp [hkey]

/-- What there is was put. -/
theorem put_of_lookup (hlookup : h.final.lookup key = some o) : ∃ c ∈ h.changes, c.2 = .put key o := by
  rw [BucketHistory.final, lookup_contents] at hlookup
  obtain ⟨c, hlast, hcontent⟩ := Option.bind_eq_some_iff.mp hlookup
  obtain ⟨hc, hkey⟩ := List.mem_filter.mp (List.mem_of_getLast? hlast)
  refine ⟨c, hc, ?_⟩
  have hkey : c.2.key = key := by simpa using hkey
  cases hchange : c.2 with
  | put key' o' =>
      rw [hchange] at hkey hcontent
      cases hkey
      cases hcontent
      rfl
  | remove key' =>
      rw [hchange] at hcontent
      cases hcontent

/-- The last change of an identity is also the last one of its key. -/
theorem last_change {c : ℕ × Change} (hc : c ∈ h.changes) {dims : Dims} (hdims : parseHiveKey c.2.key = some dims) :
    ∃ r ∈ h.changes, parseHiveKey r.2.key = some dims ∧ h.final.lookup r.2.key = r.2.content ∧
      ∀ c ∈ h.changes, parseHiveKey c.2.key = some dims → c.1 ≤ r.1 := by
  obtain ⟨before, r, hlast, hr, hrdims, hlatest⟩ :=
    exists_last h.ordered (fun c => parseHiveKey c.2.key = some dims) hc (decide_eq_true hdims)
  have hrdims : parseHiveKey r.2.key = some dims := of_decide_eq_true hrdims
  refine ⟨r, hr, hrdims, ?_, fun c hc hdims => hlatest c hc (decide_eq_true hdims)⟩
  have hkeyed : h.changes.filter (fun c => c.2.key = r.2.key) =
      (h.changes.filter fun c => parseHiveKey c.2.key = some dims).filter (fun c => c.2.key = r.2.key) := by
    rw [List.filter_filter]
    refine List.filter_congr fun c _ => ?_
    by_cases hkey : c.2.key = r.2.key
    · simp [hkey, hrdims]
    · simp [hkey]
  rw [BucketHistory.final, lookup_contents, hkeyed, hlast, List.filter_append, List.filter_cons_of_pos (by simp), List.filter_nil,
    List.getLast?_concat]
  rfl

end Contents

/-! ### What an item leaves -/

/-- The etag of the row of an identity. -/
def etagOf (db : Db) (dims : Dims) : Option PyStr := (rowOf db dims).map fun r => r.val.etag

/-- It is the same in what is committed and in what the connection sees. -/
def Shows (w : World) (dims : Dims) (etag : Option PyStr) : Prop :=
  etagOf w.conn.committed dims = etag ∧ etagOf w.conn.working dims = etag

/-- The rows are under the ids of their names and the caches are exact. -/
structure Sits (env : Env) (w : World) : Prop where
  seated : HoldsAt (Seated ∅) w
  sound : SoundAt env w

section Items

variable {env : Env} {w : World} {bucket : ℕ → Bucket} {keyPrefix : PyStr} {workers : Workers} {key : PyStr}
  {dims other : Dims} {o : S3Object}

/-- The item of a created object: the worker asks for it. -/
theorem catalog_asks (env : Env) (bucket : ℕ → Bucket) (keyPrefix : PyStr) (workers : Workers) (key : PyStr) (w : World) :
    (workItem env (s3Source bucket keyPrefix) workers (.catalog key) w).2 =
      (catalogObject env key (s3Source bucket keyPrefix) none w.tickClock).2 := by
  have hdispatch : dispatch env (s3Source bucket keyPrefix) workers (.catalog key) w =
      (catalogObject env key (s3Source bucket keyPrefix) none >>= fun _ => pure none : Py (Option TagEditResult)) w.tickClock := by
    rw [dispatch, bind_of_ok (tick_apply w)]
    rfl
  rw [workItem_world, hdispatch, bind_apply]
  rcases catalogObject env key (s3Source bucket keyPrefix) none w.tickClock with ⟨out, w'⟩
  cases out <;> rfl

theorem stat_asked (bucket : ℕ → Bucket) (keyPrefix : PyStr) (key : PyStr) (w : World) :
    ask (fun t => (s3Source bucket keyPrefix).stat t key) w.tickClock =
      (.ok (((bucket (w.clock + 1)).lookup key).map S3Object.stat), w.tickClock.tickClock) :=
  ask_apply (fun t => (s3Source bucket keyPrefix).stat t key) w.tickClock

/-- **A created object that is gone.** -/
theorem catalog_gone (env : Env) (keyPrefix : PyStr) (workers : Workers) (hgone : (bucket (w.clock + 1)).lookup key = none) :
    (workItem env (s3Source bucket keyPrefix) workers (.catalog key) w).2 = w.tickClock.tickClock := by
  have hask := stat_asked bucket keyPrefix key w
  rw [hgone] at hask
  rw [catalog_asks, catalogObject]
  show ((ask (fun t => (s3Source bucket keyPrefix).stat t key) >>= _ : Py CatalogResult) w.tickClock).2 = _
  rw [bind_of_ok hask]
  rfl

/-- **A created object that is there** is cataloged. -/
theorem catalog_there (env : Env) (keyPrefix : PyStr) (workers : Workers) (hthere : (bucket (w.clock + 1)).lookup key = some o) :
    (workItem env (s3Source bucket keyPrefix) workers (.catalog key) w).2 =
      (catalogObject env key (s3Source bucket keyPrefix) (some o.stat) w.tickClock.tickClock).2 := by
  have hask := stat_asked bucket keyPrefix key w
  rw [hthere] at hask
  rw [catalog_asks, catalogObject]
  show ((ask (fun t => (s3Source bucket keyPrefix).stat t key) >>= _ : Py CatalogResult) w.tickClock).2 = _
  rw [bind_of_ok hask]
  rfl

/-- **A removed object**: the worker deletes its row. -/
theorem delete_world (env : Env) (source : Source) (hkey : source.eventKey key = key) (workers : Workers) (w : World) :
    (workItem env source workers (.delete key) w).2 = (deleteByKey key w).2 := by
  rw [workItem_world, dispatch, hkey, bind_apply]
  rcases deleteByKey key w with ⟨out, w'⟩
  cases out <;> rfl

/-- The invariants are kept by the item of a recording. -/
theorem Sits.catalog (hinj : FingerprintInjective env) (h : Sits env w) (hkey : HiveKey key dims) :
    Sits env (workItem env (s3Source bucket keyPrefix) workers (.catalog key) (scripted w [])).2 := by
  have hdims : ∀ {dims' effKey}, trustedDims none key = some (dims', effKey) → bindError (nameParams dims') = none := by
    intro dims' effKey htrusted
    rw [hkey.trusted] at htrusted
    cases htrusted
    exact hkey.binds.1
  have hseated : HoldsAt (Seated ∅) (scripted w []) := h.seated
  have hsound : SoundAt env (scripted w []) := h.sound
  have hgate : GatedItem env resolving (s3Source bucket keyPrefix) workers (.catalog key) (scripted w []) := by
    intro _ stat _ dims' effKey htrusted
    have hticked : HoldsAt (Seated ∅) (scripted w []).tickClock.tickClock.tickClock := h.seated
    exact ⟨hticked.resolves rfl (hdims htrusted), fun _ _ _ _ _ _ _ _ _ => trivial⟩
  have hclear : ClearItem env (s3Source bucket keyPrefix) workers (.catalog key) (scripted w []) := by
    intro _ stat _
    have hticked : SoundAt env (scripted w []).tickClock.tickClock := h.sound
    exact hticked.clearCatalog hinj rfl fun dims' effKey htrusted => hdims htrusted
  exact ⟨(passes_seated env).workItem hseated hgate, hsound.workItem hinj hclear⟩

theorem Sits.delete (hinj : FingerprintInjective env) (h : Sits env w) (source : Source) :
    Sits env (workItem env source workers (.delete key) (scripted w [])).2 := by
  have hseated : HoldsAt (Seated ∅) (scripted w []) := h.seated
  have hsound : SoundAt env (scripted w []) := h.sound
  exact ⟨(passes_seated env).workItem hseated trivial, hsound.workItem hinj trivial⟩

/-- The row of an identity is the one that was written for it. -/
theorem rowOf_placed {db : Db} (h : Placed db) {r : Row FileKey FileCols} :
    rowOf db dims = some r ↔ r ∈ db.files.rows ∧ r.val.origin.dims = dims := by
  rw [rowOf_eq_some_iff]
  refine and_congr_right fun hr => ⟨fun hkey => fileKey_injective (h.named r hr) hkey, ?_⟩
  rintro rfl
  exact h.named r hr

/-- Nothing changes elsewhere. -/
theorem etagOf_elsewhere {before after : Db} {failKey : PyStr} (h : Elsewhere (some dims) failKey before after)
    (hbefore : Placed before) (hafter : Placed after) (hne : other ≠ dims) : etagOf after other = etagOf before other := by
  have hnames : ∀ {db : Db}, Placed db → ∀ {r : Row FileKey FileCols}, r ∈ db.files.rows → r.val.origin.dims = other →
      db.namesOf r.key ≠ some dims := by
    intro db hdb r hr horigin hnames
    exact hne (horigin.symm.trans (hdb.origin_of_names hr hnames))
  have hrows : rowOf after other = rowOf before other := by
    apply Option.ext
    intro r
    rw [rowOf_placed hafter, rowOf_placed hbefore]
    constructor
    · rintro ⟨hr, horigin⟩
      exact ⟨h.brought r hr (hnames hafter hr horigin), horigin⟩
    · rintro ⟨hr, horigin⟩
      exact ⟨h.kept r hr (hnames hbefore hr horigin), horigin⟩
  rw [etagOf, etagOf, hrows]

theorem elsewhere_refl (own : Option Dims) (failKey : PyStr) (db : Db) : Elsewhere own failKey db db :=
  ⟨fun _ hr _ => hr, fun _ hr _ => hr, fun _ _ _ _ => rfl, fun _ _ _ _ => rfl, fun _ _ => rfl⟩

/-- However the call ends, what it leaves differs from something it found in one identity only. -/
theorem elsewhere_of_ended {found : Except PyErr (Option Stat)} {effKey : PyStr} {before : Conn}
    {run : Except PyErr CatalogResult × World} (h : CallEnded key found (some (dims, effKey)) before run) {db : Db}
    (hdb : db = run.2.conn.committed ∨ db = run.2.conn.working) :
    ∃ db₀, (db₀ = before.committed ∨ db₀ = before.working) ∧ Elsewhere (some dims) effKey db₀ db := by
  cases hrun : run.1 with
  | error e => exact h.raised e hrun db hdb
  | ok result =>
      obtain ⟨exit, hexit, _⟩ := h.returned result hrun
      have hsynced : run.2.conn.committed = run.2.conn.working → db = run.2.conn.working := fun hsync => by
        rw [hsync, or_self] at hdb
        exact hdb
      cases exit with
      | cataloged =>
          obtain ⟨_, stat, dims', effKey', _, hown, hsync, hcataloged⟩ := hexit
          cases hown
          rw [hsynced hsync]
          exact ⟨_, Or.inr rfl, hcataloged.elsewhere⟩
      | skipped =>
          obtain ⟨_, hsync, hsame⟩ := hexit
          rw [hsynced hsync, hsame]
          exact ⟨_, Or.inr rfl, elsewhere_refl _ _ _⟩
      | broken =>
          obtain ⟨_, _, dims', effKey', hown, hsync, hbroken⟩ := hexit
          cases hown
          rw [hsynced hsync]
          exact ⟨_, Or.inr rfl, hbroken.elsewhere⟩
      | vanished =>
          obtain ⟨_, _, hcommitted, hworking⟩ := hexit
          rw [hcommitted, hworking] at hdb
          exact ⟨db, hdb, elsewhere_refl _ _ _⟩
      | unparseable =>
          obtain ⟨_, _, hown, _⟩ := hexit
          cases hown

/-- So the other identities show what they showed. -/
theorem etagOf_ended {found : Except PyErr (Option Stat)} {effKey : PyStr} {run : Except PyErr CatalogResult × World}
    {etag : Option PyStr} (h : CallEnded key found (some (dims, effKey)) w.conn run) (hsits : Sits env w)
    (hshows : Shows w other etag) (hne : other ≠ dims) {db : Db}
    (hdb : db = run.2.conn.committed ∨ db = run.2.conn.working) (hplaced : Placed db) : etagOf db other = etag := by
  obtain ⟨db₀, hdb₀, helsewhere⟩ := elsewhere_of_ended h hdb
  cases hdb₀ with
  | inl hcommitted =>
      rw [hcommitted] at helsewhere
      exact (etagOf_elsewhere helsewhere hsits.seated.committed hplaced hne).trans hshows.1
  | inr hworking =>
      rw [hworking] at helsewhere
      exact (etagOf_elsewhere helsewhere hsits.seated.working hplaced hne).trans hshows.2

/-- **The rows of other identities** stay through the item of a created object. -/
theorem frame_catalog (hinj : FingerprintInjective env) (h : Sits env w) (hkey : HiveKey key dims) (hne : other ≠ dims)
    {etag : Option PyStr} (hshows : Shows w other etag) :
    Shows (workItem env (s3Source bucket keyPrefix) workers (.catalog key) (scripted w [])).2 other etag := by
  have hafter : Sits env (workItem env (s3Source bucket keyPrefix) workers (.catalog key) (scripted w [])).2 :=
    h.catalog hinj hkey
  cases hlookup : (bucket ((scripted w []).clock + 1)).lookup key with
  | none =>
      rw [catalog_gone env keyPrefix workers hlookup]
      exact hshows
  | some o =>
      rw [catalog_there env keyPrefix workers hlookup] at hafter ⊢
      have hticked : Sits env (scripted w []).tickClock.tickClock := ⟨h.seated, h.sound⟩
      have hresolved : trustedDims ((s3Source bucket keyPrefix).intendedKey (scripted w []).tickClock.tickClock.clock key) key =
          some (dims, key) := hkey.trusted
      have hended : CallEnded key (.ok (some o.stat)) _ (scripted w []).tickClock.tickClock.conn
          (catalogObject env key (s3Source bucket keyPrefix) (some o.stat) (scripted w []).tickClock.tickClock) :=
        catalogWithStat_ended hticked.seated o.stat
      rw [hresolved] at hended
      exact ⟨etagOf_ended hended hticked hshows hne (Or.inl rfl) hafter.seated.committed,
        etagOf_ended hended hticked hshows hne (Or.inr rfl) hafter.seated.working⟩

/-- **A created object that is gone**: nothing changes. -/
theorem shows_vanished (hgone : (bucket (w.clock + 1)).lookup key = none) {etag : Option PyStr} (hshows : Shows w dims etag) :
    Shows (workItem env (s3Source bucket keyPrefix) workers (.catalog key) (scripted w [])).2 dims etag := by
  have hgone' : (bucket ((scripted w []).clock + 1)).lookup key = none := hgone
  rw [catalog_gone env keyPrefix workers hgone']
  exact hshows

/-- What follows the identity, for an object that stays as it is: the row has its etag. -/
theorem catalogResolved_readable (hinj : FingerprintInjective env) {db : Db} (hinv : CatalogInv env db) {ids : Ids}
    {source : Source} {stat : Stat} {summary : FileSummary} {t : ℕ} (hkey : HiveKey key dims)
    (hfile : fileKey db dims = some (ids.key dims)) (hread : source.readSummary t key stat.size = .ok summary)
    (hfits : transactionError true ⟨dims, key, stat, summary⟩ = none) :
    ∃ db' t', (catalogResolved env key source stat dims key ids (viewing db db t)).2 = viewing db' db' t' ∧
      etagOf db' dims = some stat.etag := by
  rw [catalogResolved, bind_of_ok (query_ok viewing_quiet hkey.binds.2 _),
    show (viewing db db t).conn.working = db from rfl]
  by_cases hsame : (db.files.find (ids.key dims)).map (fun r => r.val.etag) = some stat.etag
  · refine ⟨db, t, by rw [if_pos hsame]; rfl, ?_⟩
    rw [etagOf, rowOf_of_fileKey hfile]
    exact hsame
  · have hwrite : Refines env db (t + 1) (writeFileRow env ids ⟨dims, key, stat, summary⟩)
        (writeEffect ⟨dims, key, stat, summary⟩) := refines_writeFileRow hinj hinv hfile (t + 1)
    rw [writeEffect, hfits] at hwrite
    obtain ⟨db', t', hrun, hstep⟩ := hwrite
    refine ⟨db', t', ?_, ?_⟩
    · have hask : attempt (ask fun t => source.readSummary t key stat.size) (viewing db db t) =
          (.ok (.ok summary), viewing db db (t + 1)) := by
        rw [attempt_ask, show (viewing db db t).clock = t from rfl, hread]
        rfl
      rw [if_neg hsame, bind_of_ok hask]
      exact congrArg Prod.snd hrun
    · have hview : (Builder.view db').files dims = some ⟨dims, key, stat, summary⟩ := by
        rw [hstep.view]
        exact Function.update_self ..
      obtain ⟨r, hrow, horigin⟩ := rowOf_of_files hview
      have hcols := hstep.inv.columns r (rowOf_eq_some_iff.mp hrow).1
      rw [etagOf, hrow, Option.map_some, hcols, horigin]
      rfl

/-- **A created object that stays as it is**: the row of its identity has its etag. -/
theorem shows_cataloged (hinj : FingerprintInjective env) (h : Sits env w) (hkey : HiveKey key dims)
    (hthere : ∀ t, w.clock ≤ t → (bucket t).lookup key = some o) (hreadable : Readable key dims o) :
    Shows (workItem env (s3Source bucket keyPrefix) workers (.catalog key) (scripted w [])).2 dims (some o.stat.etag) := by
  obtain ⟨parsed, summary, hparse, hsummary, hfits⟩ := hreadable
  have hread : ∀ t, w.clock ≤ t → (s3Source bucket keyPrefix).readSummary t key o.stat.size = .ok summary := by
    intro t ht
    have hopen : (s3Source bucket keyPrefix).openSummary t key o.stat.size = .ok parsed := by
      simp only [s3Source, hthere t ht]
      exact hparse
    rw [Source.readSummary, hopen]
    exact hsummary
  have hview : (scripted w []).tickClock.tickClock = viewing w.conn.committed w.conn.working (w.clock + 2) := by
    rw [h.sound.viewing]
    rfl
  have hspec := resolveIds_viewing h.sound.working.inv dims w.conn.committed (w.clock + 3)
  rw [hkey.binds.1] at hspec
  obtain ⟨ids, db', hresolve, honly, hfile⟩ := hspec
  obtain ⟨db'', t', hworld, hetag⟩ := catalogResolved_readable hinj (h.sound.working.inv.onlyDims honly) hkey hfile
    (hread (w.clock + 3) (by omega)) hfits
  have hfound : (bucket ((scripted w []).clock + 1)).lookup key = some o := hthere _ (Nat.le_succ w.clock)
  rw [catalog_there env keyPrefix workers hfound, hview, catalogObject_apply,
    show trustedDims ((s3Source bucket keyPrefix).intendedKey _ key) key = some (dims, key) from hkey.trusted]
  dsimp only
  rw [show (viewing w.conn.committed w.conn.working (w.clock + 2)).tickClock =
    viewing w.conn.committed w.conn.working (w.clock + 3) from rfl, bind_of_ok hresolve, hworld]
  exact ⟨hetag, hetag⟩

/-- **`delete_by_key`** of a recording: its identity is unknown, or its row goes. -/
theorem deleteByKey_cases (h : Sits env w) (hkey : HiveKey key dims) :
    (fileKey w.conn.working dims = none ∧ (deleteByKey key (scripted w [])).2 = scripted w []) ∨
      ∃ k, fileKey w.conn.working dims = some k ∧ (deleteByKey key (scripted w [])).2 = ((scripted w []).setWorking
        (Db.deleteFailure key (w.conn.working.deleteFiles fun r => r.key = k))).commitWorking := by
  have hexact := h.seated.exact.compositeIds dims
  rw [deleteByKey, hkey.parses]
  dsimp only
  rw [bind_of_ok (look_apply _), show (scripted w []).caches = w.caches from rfl]
  cases hids : cachedIds w.caches dims with
  | none =>
      rw [Reconcile.compositeIds, hids] at hexact
      exact Or.inl ⟨hexact.symm, rfl⟩
  | some ids =>
      rw [Reconcile.compositeIds, hids] at hexact
      refine Or.inr ⟨ids.key dims, hexact.symm, ?_⟩
      have hdelete : statement (compositeParams dims) (fun db =>
          .ok ((db.files.find (ids.key dims)).isSome, db.deleteFiles fun r => r.key = ids.key dims)) (scripted w []) =
            (.ok (w.conn.working.files.find (ids.key dims)).isSome,
              (scripted w []).setWorking (w.conn.working.deleteFiles fun r => r.key = ids.key dims)) := by
        rw [statement_quiet (quiet_scripted w), hkey.binds.2]
        rfl
      have hbind : bindError [.text key] = none := by
        rw [bindError_single]
        exact bindError_text hkey.encodable
      have hquiet : ((scripted w []).setWorking (w.conn.working.deleteFiles fun r => r.key = ids.key dims)).Quiet := rfl
      dsimp only
      rw [bind_of_ok hdelete, bind_of_ok (execute_ok hquiet hbind _), bind_of_ok (commit_quiet (hquiet.setWorking _))]
      rfl

/-- **A removed object**: its identity has no row, and nothing else changes. -/
theorem shows_deleted (h : Sits env w) (hkey : HiveKey key dims) :
    Shows (workItem env (s3Source bucket keyPrefix) workers (.delete key) (scripted w [])).2 dims none ∧
      ∀ other ≠ dims, ∀ etag, Shows w other etag →
        Shows (workItem env (s3Source bucket keyPrefix) workers (.delete key) (scripted w [])).2 other etag := by
  rw [delete_world env (s3Source bucket keyPrefix) rfl]
  rcases deleteByKey_cases h hkey with ⟨hfile, hworld⟩ | ⟨k, hfile, hworld⟩
  · rw [hworld]
    have hfile' : fileKey w.conn.committed dims = none := (h.seated.same.fileKey dims).trans hfile
    refine ⟨⟨?_, ?_⟩, fun _ _ _ hshows => hshows⟩
    · show etagOf w.conn.committed dims = none
      rw [etagOf, rowOf, hfile']
      rfl
    · show etagOf w.conn.working dims = none
      rw [etagOf, rowOf, hfile]
      rfl
  · rw [hworld]
    have hrows : ∀ d, etagOf (Db.deleteFailure key (w.conn.working.deleteFiles fun r => r.key = k)) d =
        if d = dims then none else etagOf w.conn.working d := by
      intro d
      show (rowOf (w.conn.working.deleteFiles fun r => r.key = k) d).map _ = _
      rw [rowOf_deleteFiles hfile]
      by_cases hd : d = dims
      · rw [if_pos hd, if_pos hd]
        rfl
      · rw [if_neg hd, if_neg hd]
        rfl
    have hown := hrows dims
    rw [if_pos rfl] at hown
    refine ⟨⟨hown, hown⟩, fun other hne etag hshows => ?_⟩
    have hother := hrows other
    rw [if_neg hne, hshows.2] at hother
    exact ⟨hother, hother⟩

/-- What every cataloging call keeps: that time goes on. -/
theorem cataloging_any : Cataloging fun _ _ _ => True where
  commits _ := trivial
  rollBack _ _ _ _ := trivial
  delete _ _ _ _ _ := trivial
  failures _ _ _ _ _ := trivial
  customer := inserts_of_extends fun _ _ => trivial
  site := inserts_of_extends fun _ _ => trivial
  robot := inserts_of_extends fun _ _ => trivial
  source := inserts_of_extends fun _ _ => trivial
  topics _ _ := trivial
  upsert _ _ _ := trivial
  embedded _ _ _ _ _ := trivial
  hasError _ _ _ _ _ _ := trivial
  setCaches _ _ := trivial

theorem clock_catalog (env : Env) (bucket : ℕ → Bucket) (keyPrefix : PyStr) (workers : Workers) (key : PyStr) (w : World) :
    w.clock ≤ (workItem env (s3Source bucket keyPrefix) workers (.catalog key) w).2.clock := by
  cases hlookup : (bucket (w.clock + 1)).lookup key with
  | none =>
      rw [catalog_gone env keyPrefix workers hlookup]
      show w.clock ≤ w.clock + 1 + 1
      omega
  | some o =>
      rw [catalog_there env keyPrefix workers hlookup]
      have hkeeps : Builder.Keeps (fun _ _ _ => True) w.clock
          (catalogObject env key (s3Source bucket keyPrefix) (some o.stat)) fun _ => True :=
        cataloging_any.keeps_catalogObject _ _ _
      have hticked : w.clock ≤ w.tickClock.tickClock.clock := by
        show w.clock ≤ w.clock + 1 + 1
        omega
      exact (hkeeps.after ⟨trivial, hticked⟩).since

theorem clock_delete (env : Env) (bucket : ℕ → Bucket) (keyPrefix : PyStr) (workers : Workers) (key : PyStr) (w : World) :
    w.clock ≤ (workItem env (s3Source bucket keyPrefix) workers (.delete key) w).2.clock := by
  rw [delete_world env (s3Source bucket keyPrefix) rfl]
  have hkeeps : Builder.Keeps (fun _ _ _ => True) w.clock (deleteByKey key) fun _ => True :=
    cataloging_any.keeps_deleteByKey _
  exact (hkeeps.after ⟨trivial, le_refl _⟩).since

end Items

/-! ### The event path -/

/-- A record that notifies of a change: its key is quoted. -/
def Announces (change : Change) (record : S3Record) : Prop :=
  startsWith record.eventName change.eventName = true ∧
    ∃ encoded, record.key = some encoded ∧ unquotePlus encoded = change.key

/-- What is on the work queue, the builder, and the items that its worker has taken, each with the moment. -/
structure BucketState where
  queue : List WorkItem
  world : World
  taken : List (ℕ × WorkItem)

/-- A builder that starts with an empty catalog. -/
def BucketState.initial (t : ℕ) : BucketState := ⟨[], opened Db.empty t, []⟩

/-- Time passes, a message is delivered whose records notify of changes that have happened, or the worker takes an item. -/
inductive BucketStep (env : Env) (h : BucketHistory) (keyPrefix : PyStr) (workers : Workers) :
    BucketState → BucketState → Prop where
  | wait (s : BucketState) : BucketStep env h keyPrefix workers s { s with world := s.world.tickClock }
  | deliver (s : BucketState) (announced : List (ℕ × Change)) (records : List S3Record)
      (hpast : ∀ c ∈ announced, c ∈ h.changes ∧ c.1 ≤ s.world.clock)
      (hrecords : List.Forall₂ (fun c record => Announces c.2 record) announced records) :
      BucketStep env h keyPrefix workers s { s with queue := s.queue ++ s3EventProducer [some records] }
  | work (s : BucketState) (item : WorkItem) (queue : List WorkItem) (hqueue : s.queue = item :: queue) :
      BucketStep env h keyPrefix workers s ⟨queue,
        (workItem env (s3Source h.bucketAt keyPrefix) workers item (scripted s.world [])).2,
        s.taken ++ [(s.world.clock, item)]⟩

/-- The item is about the key. -/
def about (key : PyStr) (item : WorkItem) : Bool := item = .catalog key || item = .delete key

/-- What an item leaves of the identity of its key when the bucket has what it has in the end; `none` if it leaves it as it
is, for it is about another identity or its object is gone. -/
def leaves (final : Bucket) (dims : Dims) : WorkItem → Option (Option PyStr)
  | .catalog key => if parseHiveKey key = some dims then (final.lookup key).map fun o => some o.stat.etag else none
  | .delete key => if parseHiveKey key = some dims then some none else none
  | _ => none

/-- The last item that the worker has taken that decides about an identity. -/
def lastOf (final : Bucket) (dims : Dims) (taken : List (ℕ × WorkItem)) : Option (ℕ × WorkItem) :=
  (taken.filter fun e => (leaves final dims e.2).isSome).getLast?

/-- The notification of every change has been processed. -/
def Drained (h : BucketHistory) (s : BucketState) : Prop := ∀ c ∈ h.changes, ∃ e ∈ s.taken, e.2 = c.2.item ∧ c.1 ≤ e.1

/-- One of every key has been processed after the last change of the bucket. -/
def Settled (h : BucketHistory) (s : BucketState) : Prop :=
  ∀ c ∈ h.changes, ∃ e ∈ s.taken, about c.2.key e.2 = true ∧ ∀ c' ∈ h.changes, c'.1 ≤ e.1

/-- For each existing object, what was processed last of its identity is that it was created: no removal of its key, and none
of another key with the same fields, comes after it. -/
def CreatedLast (h : BucketHistory) (s : BucketState) : Prop :=
  ∀ key o dims, h.final.lookup key = some o → parseHiveKey key = some dims →
    ∃ t, lastOf h.final dims s.taken = some (t, .catalog key)

/-- The row is of the file with this key. -/
def IsFile (db : Db) (r : Row FileKey FileCols) (key : PyStr) : Prop :=
  ∃ dims, db.namesOf r.key = some dims ∧ parseHiveKey key = some dims

/-- The rows are those of the objects of the bucket, one of each, with their etags. -/
structure MirrorsBucket (db : Db) (bucket : Bucket) : Prop where
  rows : ∀ r ∈ db.files.rows, ∃! key, IsFile db r key ∧ (bucket.lookup key).isSome = true
  objects : ∀ key o, bucket.lookup key = some o → ∃! r, r ∈ db.files.rows ∧ IsFile db r key
  etags : ∀ r ∈ db.files.rows, ∀ key o, IsFile db r key → bucket.lookup key = some o → r.val.etag = o.stat.etag

section Items

variable {key : PyStr} {dims : Dims} {change : Change} {final : Bucket} {taken : List (ℕ × WorkItem)} {e : ℕ × WorkItem}

theorem about_item (key : PyStr) (change : Change) : about key change.item = true ↔ change.key = key := by
  cases change <;> simp [about, Change.item, Change.key]

theorem key_of_item (h : change.item = .delete key) : change.key = key := by
  cases change with
  | put key' o => cases h
  | remove key' =>
      cases h
      rfl

/-- An item that is another one than the last was taken before. -/
theorem mem_of_append {e' : ℕ × WorkItem} (h : e ∈ taken ++ [e']) (hne : e.2 ≠ e'.2) : e ∈ taken := by
  cases List.mem_append.mp h with
  | inl hold => exact hold
  | inr hnew => exact absurd (congrArg Prod.snd (List.mem_singleton.mp hnew)) hne

theorem leaves_other (h : parseHiveKey change.key ≠ some dims) : leaves final dims change.item = none := by
  cases change with
  | put key o => exact if_neg h
  | remove key => exact if_neg h

theorem leaves_catalog (final : Bucket) (h : parseHiveKey key = some dims) :
    leaves final dims (.catalog key) = (final.lookup key).map fun o => some o.stat.etag := if_pos h

theorem leaves_delete (final : Bucket) (h : parseHiveKey key = some dims) : leaves final dims (.delete key) = some none :=
  if_pos h

/-- An item about an existing object decides. -/
theorem leaves_about {o : S3Object} (habout : about key e.2 = true) (hdims : parseHiveKey key = some dims)
    (hlookup : final.lookup key = some o) : (leaves final dims e.2).isSome = true := by
  rw [about, Bool.or_eq_true, decide_eq_true_iff, decide_eq_true_iff] at habout
  cases habout with
  | inl hcatalog =>
      rw [hcatalog, leaves_catalog final hdims, hlookup]
      rfl
  | inr hdelete =>
      rw [hdelete, leaves_delete final hdims]
      rfl

/-- Only the creation of an existing object leaves an etag. -/
theorem catalog_of_leaves {item : WorkItem} {etag : PyStr} (h : leaves final dims item = some (some etag)) :
    ∃ key o, item = .catalog key ∧ parseHiveKey key = some dims ∧ final.lookup key = some o := by
  cases item with
  | catalog key =>
      rw [leaves] at h
      split at h
      · rename_i hdims
        obtain ⟨o, hlookup, _⟩ := Option.map_eq_some_iff.mp h
        exact ⟨key, o, rfl, hdims, hlookup⟩
      · cases h
  | delete key =>
      rw [leaves] at h
      split at h <;> cases h
  | rescan => cases h
  | stop => cases h
  | tagEdit item => cases h

theorem lastOf_append_self {etag : Option PyStr} (h : leaves final dims e.2 = some etag) :
    lastOf final dims (taken ++ [e]) = some e := by
  rw [lastOf, List.filter_append, List.filter_singleton, h, Option.isSome_some, cond_true, List.getLast?_concat]

theorem lastOf_append_other (h : leaves final dims e.2 = none) : lastOf final dims (taken ++ [e]) = lastOf final dims taken := by
  rw [lastOf, List.filter_append, List.filter_singleton, h, Option.isSome_none, cond_false, List.append_nil, lastOf]

/-- **A notification that is delivered** is put on the queue. -/
theorem enqueueRecords_announced {announced : List (ℕ × Change)} {records : List S3Record}
    (hkeys : ∀ c ∈ announced, c.2.OfRecording)
    (hrecords : List.Forall₂ (fun c record => Announces c.2 record) announced records) :
    enqueueRecords records = announced.map fun c => c.2.item := by
  induction hrecords with
  | nil => rfl
  | @cons c record announced records hrecord _ ih =>
      have hrest := ih fun c' hc' => hkeys c' (List.mem_cons_of_mem _ hc')
      obtain ⟨hname, encoded, hkey, hunquoted⟩ := hrecord
      obtain ⟨dims, hhive, _⟩ := hkeys c List.mem_cons_self
      rw [enqueueRecords, hkey, List.map_cons, hrest]
      dsimp only
      rw [hunquoted, hhive.endsWith_mcap, if_neg (by decide)]
      cases hchange : c.2 with
      | put key o =>
          rw [hchange] at hname
          rw [show startsWith record.eventName (py "ObjectCreated") = true from hname, if_pos rfl]
          rfl
      | remove key =>
          rw [hchange] at hname
          have hremoved : startsWith record.eventName (py "ObjectRemoved") = true := hname
          rw [if_neg fun hcreated => Notifications.not_both_prefixes hcreated hremoved, if_pos hremoved]
          rfl

end Items

/-! ### What holds on the way -/

/-- The invariants of the builder; what is queued and taken are notifications, and the moments go on. -/
structure Live (env : Env) (h : BucketHistory) (s : BucketState) : Prop where
  sits : Sits env s.world
  queued : ∀ item ∈ s.queue, ∃ c ∈ h.changes, item = c.2.item
  taken : ∀ e ∈ s.taken, ∃ c ∈ h.changes, e.2 = c.2.item
  past : ∀ e ∈ s.taken, e.1 ≤ s.world.clock
  ordered : s.taken.Pairwise fun e e' => e.1 ≤ e'.1

/-- What the items taken say about the rows: there are none of other identities; there is none after the last removal of an
identity that does not come back; and once the bucket has its contents, the last item that decides is right. -/
structure Account (h : BucketHistory) (s : BucketState) : Prop where
  foreign : ∀ d, (∀ c ∈ h.changes, parseHiveKey c.2.key ≠ some d) → Shows s.world d none
  gone : ∀ d, (∀ key, parseHiveKey key = some d → h.final.lookup key = none) → ∀ e ∈ s.taken, ∀ key, e.2 = .delete key →
    parseHiveKey key = some d → (∀ c ∈ h.changes, parseHiveKey c.2.key = some d → c.1 ≤ e.1) → Shows s.world d none
  last : ∀ d e etag, lastOf h.final d s.taken = some e → leaves h.final d e.2 = some etag → (∀ c ∈ h.changes, c.1 ≤ e.1) →
    Shows s.world d etag

section Runs

variable {env : Env} {h : BucketHistory} {keyPrefix : PyStr} {workers : Workers} {s s' : BucketState}

/-- The item of a change keeps the invariants, and the rows of other identities. -/
theorem item_keeps (hinj : FingerprintInjective env) {w : World} (hsits : Sits env w) {change : Change} {dims : Dims}
    (hkey : HiveKey change.key dims) (bucket : ℕ → Bucket) (keyPrefix : PyStr) (workers : Workers) :
    Sits env (workItem env (s3Source bucket keyPrefix) workers change.item (scripted w [])).2 ∧
      w.clock ≤ (workItem env (s3Source bucket keyPrefix) workers change.item (scripted w [])).2.clock ∧
      ∀ other ≠ dims, ∀ etag, Shows w other etag →
        Shows (workItem env (s3Source bucket keyPrefix) workers change.item (scripted w [])).2 other etag := by
  cases change with
  | put key o =>
      exact ⟨hsits.catalog hinj hkey, clock_catalog env bucket keyPrefix workers key (scripted w []),
        fun other hne etag hshows => frame_catalog hinj hsits hkey hne hshows⟩
  | remove key =>
      exact ⟨hsits.delete hinj _, clock_delete env bucket keyPrefix workers key (scripted w []), (shows_deleted hsits hkey).2⟩

theorem live_initial (env : Env) (h : BucketHistory) (t : ℕ) : Live env h (BucketState.initial t) where
  sits := by
    rw [BucketState.initial, opened_eq]
    exact ⟨seated_empty, sound_opened (dbInv_empty env)⟩
  queued _ hitem := absurd hitem List.not_mem_nil
  taken _ he := absurd he List.not_mem_nil
  past _ he := absurd he List.not_mem_nil
  ordered := List.Pairwise.nil

theorem shows_empty (t : ℕ) (d : Dims) : Shows (opened Db.empty t) d none := by
  have hnone : etagOf Db.empty d = none := by
    rw [etagOf, Option.map_eq_none_iff, Option.eq_none_iff_forall_ne_some]
    intro r hr
    exact absurd (rowOf_eq_some_iff.mp hr).1 List.not_mem_nil
  exact ⟨hnone, hnone⟩

theorem account_initial (h : BucketHistory) (t : ℕ) : Account h (BucketState.initial t) where
  foreign d _ := shows_empty t d
  gone d _ _ _ _ _ _ _ := shows_empty t d
  last _ _ _ hlast _ _ := by cases hlast

/-- **One step** keeps the invariants. -/
theorem BucketStep.live (hinj : FingerprintInjective env) (hstep : BucketStep env h keyPrefix workers s s') (hl : Live env h s) :
    Live env h s' := by
  cases hstep with
  | wait =>
      have hpast : ∀ e ∈ s.taken, e.1 ≤ s.world.tickClock.clock := fun e he => (hl.past e he).trans (Nat.le_succ _)
      exact ⟨⟨hl.sits.seated, hl.sits.sound⟩, hl.queued, hl.taken, hpast, hl.ordered⟩
  | deliver announced records hpast hrecords =>
      refine ⟨hl.sits, fun item hitem => ?_, hl.taken, hl.past, hl.ordered⟩
      cases List.mem_append.mp hitem with
      | inl hold => exact hl.queued item hold
      | inr hnew =>
          rw [s3EventProducer, List.flatMap_singleton, Option.getD_some,
            enqueueRecords_announced (fun c hc => h.recordings c (hpast c hc).1) hrecords] at hnew
          obtain ⟨c, hc, rfl⟩ := List.mem_map.mp hnew
          exact ⟨c, (hpast c hc).1, rfl⟩
  | work item queue hqueue =>
      obtain ⟨c, hc, rfl⟩ := hl.queued item (by rw [hqueue]; exact List.mem_cons_self)
      obtain ⟨dims, hkey, _⟩ := h.recordings c hc
      obtain ⟨hsits, hclock, _⟩ := item_keeps hinj hl.sits hkey h.bucketAt keyPrefix workers
      refine ⟨hsits, fun item hitem => hl.queued item (by rw [hqueue]; exact List.mem_cons_of_mem _ hitem), fun e he => ?_,
        fun e he => ?_, ?_⟩
      · cases List.mem_append.mp he with
        | inl hold => exact hl.taken e hold
        | inr hnew => exact ⟨c, hc, by rw [List.mem_singleton.mp hnew]⟩
      · cases List.mem_append.mp he with
        | inl hold => exact (hl.past e hold).trans hclock
        | inr hnew =>
            rw [List.mem_singleton.mp hnew]
            exact hclock
      · refine List.pairwise_append.mpr ⟨hl.ordered, List.pairwise_singleton _ _, fun e he e' he' => ?_⟩
        rw [List.mem_singleton.mp he']
        exact hl.past e he

/-- **A removal whose object does not come back**, through one more item: one about the identity deletes the row, or finds no
object. -/
theorem Account.gone_work (ha : Account h s) (hl : Live env h s) {c : ℕ × Change} {dims d : Dims} (hkey : HiveKey c.2.key dims)
    (hframe : ∀ other ≠ dims, ∀ etag, Shows s.world other etag →
      Shows (workItem env (s3Source h.bucketAt keyPrefix) workers c.2.item (scripted s.world [])).2 other etag)
    (hnone : ∀ key, parseHiveKey key = some d → h.final.lookup key = none) {e : ℕ × WorkItem}
    (he : e ∈ s.taken ++ [(s.world.clock, c.2.item)]) {key : PyStr} (hdelete : e.2 = .delete key)
    (hparse : parseHiveKey key = some d) (hall : ∀ c ∈ h.changes, parseHiveKey c.2.key = some d → c.1 ≤ e.1) :
    Shows (workItem env (s3Source h.bucketAt keyPrefix) workers c.2.item (scripted s.world [])).2 d none := by
  by_cases hd : d = dims
  · cases hchange : c.2 with
    | remove key' =>
        rw [hchange] at hkey
        rw [hd]
        exact (shows_deleted hl.sits hkey).1
    | put key' o =>
        rw [hchange] at hkey he
        have hold : e ∈ s.taken := mem_of_append he (by rw [hdelete]; exact WorkItem.noConfusion)
        have hparse' : parseHiveKey key' = some d := by
          rw [hd]
          exact hkey.parses
        have hgone : (h.bucketAt (s.world.clock + 1)).lookup key' = none := by
          rw [lookup_bucketAt fun c' hc' hkey' => ?_, hnone key' hparse']
          exact (hall c' hc' (by rw [hkey', hparse'])).trans ((hl.past e hold).trans (Nat.le_succ _))
        exact shows_vanished hgone (ha.gone d hnone e hold key hdelete hparse hall)
  · have hold : e ∈ s.taken := by
      refine mem_of_append he fun hitem => hd ?_
      rw [hdelete] at hitem
      rw [← key_of_item hitem.symm] at hparse
      exact (hkey.dims_eq hparse).symm
    exact hframe d hd none (ha.gone d hnone e hold key hdelete hparse hall)

/-- **The last item that decides**, through one more item: it is this one, or this one is about another identity, or about an
object that is gone. -/
theorem Account.last_work (hinj : FingerprintInjective env) (ha : Account h s) (hl : Live env h s) {c : ℕ × Change}
    {dims d : Dims} (hkey : HiveKey c.2.key dims)
    (hframe : ∀ other ≠ dims, ∀ etag, Shows s.world other etag →
      Shows (workItem env (s3Source h.bucketAt keyPrefix) workers c.2.item (scripted s.world [])).2 other etag)
    {e : ℕ × WorkItem} {etag : Option PyStr} (hlast : lastOf h.final d (s.taken ++ [(s.world.clock, c.2.item)]) = some e)
    (hleaves : leaves h.final d e.2 = some etag) (hall : ∀ c ∈ h.changes, c.1 ≤ e.1) :
    Shows (workItem env (s3Source h.bucketAt keyPrefix) workers c.2.item (scripted s.world [])).2 d etag := by
  by_cases hd : d = dims
  · rw [hd] at hlast hleaves ⊢
    cases hchange : c.2 with
    | remove key =>
        rw [hchange] at hkey hlast
        have hdecides : leaves h.final dims (Change.remove key).item = some none := leaves_delete h.final hkey.parses
        rw [lastOf_append_self hdecides] at hlast
        cases hlast
        cases hdecides.symm.trans hleaves
        exact (shows_deleted hl.sits hkey).1
    | put key o =>
        rw [hchange] at hkey hlast
        have hitem : leaves h.final dims (Change.put key o).item = (h.final.lookup key).map fun o => some o.stat.etag :=
          leaves_catalog h.final hkey.parses
        have hthere : ∀ t, e.1 ≤ t → (h.bucketAt t).lookup key = h.final.lookup key := fun t ht =>
          lookup_bucketAt fun c hc _ => (hall c hc).trans ht
        cases hlookup : h.final.lookup key with
        | none =>
            rw [hlookup] at hitem
            rw [lastOf_append_other hitem] at hlast
            have hold : e ∈ s.taken := (List.mem_filter.mp (List.mem_of_getLast? hlast)).1
            have hgone : (h.bucketAt (s.world.clock + 1)).lookup key = none := by
              rw [hthere _ ((hl.past e hold).trans (Nat.le_succ _)), hlookup]
            exact shows_vanished hgone (ha.last dims e etag hlast hleaves hall)
        | some o' =>
            rw [hlookup] at hitem
            rw [lastOf_append_self hitem] at hlast
            cases hlast
            cases hitem.symm.trans hleaves
            obtain ⟨c', hc', hput⟩ := put_of_lookup hlookup
            obtain ⟨d', hkey', hreadable⟩ := h.recordings c' hc'
            rw [hput] at hkey' hreadable
            have hobject := hreadable o' rfl
            rw [hkey'.dims_eq hkey.parses] at hobject
            exact shows_cataloged hinj hl.sits hkey (fun t ht => (hthere t ht).trans hlookup) hobject
  · have hother : leaves h.final d c.2.item = none := leaves_other fun hparse => hd (hkey.dims_eq hparse).symm
    rw [lastOf_append_other hother] at hlast
    exact hframe d hd _ (ha.last d e etag hlast hleaves hall)

/-- **One step** keeps the account. -/
theorem BucketStep.account (hinj : FingerprintInjective env) (hstep : BucketStep env h keyPrefix workers s s') (hl : Live env h s)
    (ha : Account h s) : Account h s' := by
  cases hstep with
  | wait => exact ⟨ha.foreign, ha.gone, ha.last⟩
  | deliver announced records hpast hrecords => exact ⟨ha.foreign, ha.gone, ha.last⟩
  | work item queue hqueue =>
      obtain ⟨c, hc, rfl⟩ := hl.queued item (by rw [hqueue]; exact List.mem_cons_self)
      obtain ⟨dims, hkey, _⟩ := h.recordings c hc
      obtain ⟨_, _, hframe⟩ := item_keeps hinj hl.sits hkey h.bucketAt keyPrefix workers
      refine ⟨fun d hforeign => hframe d ?_ none (ha.foreign d hforeign), fun d hnone e he key hdelete hparse hall =>
        ha.gone_work hl hkey hframe hnone he hdelete hparse hall, fun d e etag hlast hleaves hall =>
        ha.last_work hinj hl hkey hframe hlast hleaves hall⟩
      rintro rfl
      exact hforeign c hc hkey.parses

/-- **A run.** -/
theorem account_of_run (hinj : FingerprintInjective env) {t : ℕ}
    (hrun : ReflTransGen (BucketStep env h keyPrefix workers) (BucketState.initial t) s) : Live env h s ∧ Account h s := by
  induction hrun with
  | refl => exact ⟨live_initial env h t, account_initial h t⟩
  | tail _ hstep ih => exact ⟨hstep.live hinj ih.1, hstep.account hinj ih.1 ih.2⟩

/-- Every row is of the identity of a recording. -/
theorem Account.known (ha : Account h s) (hplaced : Placed s.world.conn.committed) {r : Row FileKey FileCols}
    (hr : r ∈ s.world.conn.committed.files.rows) : ∃ c ∈ h.changes, parseHiveKey c.2.key = some r.val.origin.dims := by
  by_contra hnone
  have habsent := (ha.foreign r.val.origin.dims fun c hc hparse => hnone ⟨c, hc, hparse⟩).1
  rw [etagOf, (rowOf_placed hplaced).mpr ⟨hr, rfl⟩] at habsent
  cases habsent

/-- A row is of the keys of its identity. -/
theorem isFile_iff {db : Db} (hplaced : Placed db) {r : Row FileKey FileCols} (hr : r ∈ db.files.rows) (key : PyStr) :
    IsFile db r key ↔ parseHiveKey key = some r.val.origin.dims := by
  have hnames : db.namesOf r.key = some r.val.origin.dims := namesOf_fileKey (hplaced.named r hr)
  constructor
  · rintro ⟨dims, hrow, hparse⟩
    rw [hparse, ← hrow, hnames]
  · exact fun hparse => ⟨_, hnames, hparse⟩

/-- The last item that decides about an existing object is taken after the last change. -/
theorem Settled.last (hsettled : Settled h s) (hl : Live env h s) {key : PyStr} {o : S3Object} {d : Dims}
    (hlookup : h.final.lookup key = some o) (hparse : parseHiveKey key = some d) :
    ∃ e etag, lastOf h.final d s.taken = some e ∧ leaves h.final d e.2 = some etag ∧ ∀ c ∈ h.changes, c.1 ≤ e.1 := by
  obtain ⟨c, hc, hput⟩ := put_of_lookup hlookup
  obtain ⟨e₀, he₀, habout, hall⟩ := hsettled c hc
  rw [hput] at habout
  obtain ⟨before, e, hlast, _, hdecides, hlatest⟩ := exists_last hl.ordered (fun e => (leaves h.final d e.2).isSome) he₀
    (leaves_about habout hparse hlookup)
  obtain ⟨etag, hleaves⟩ := Option.isSome_iff_exists.mp hdecides
  exact ⟨e, etag, by rw [lastOf, hlast, List.getLast?_concat], hleaves, fun c' hc' =>
    (hall c' hc').trans (hlatest e₀ he₀ (leaves_about habout hparse hlookup))⟩

/-- A catalog that mirrors the bucket has the row of each object, so no object was deleted from it last. -/
theorem Account.createdLast (ha : Account h s) (hl : Live env h s) (hsettled : Settled h s)
    (hmirrors : MirrorsBucket s.world.conn.committed h.final) : CreatedLast h s := by
  have hplaced := hl.sits.seated.committed
  intro key o d hlookup hparse
  obtain ⟨e, etag, hlast, hleaves, hall⟩ := hsettled.last hl hlookup hparse
  obtain ⟨r, ⟨hr, hfile⟩, _⟩ := hmirrors.objects key o hlookup
  have horigin : r.val.origin.dims = d := Option.some.inj (((isFile_iff hplaced hr key).mp hfile).symm.trans hparse)
  have hshows := (ha.last d e etag hlast hleaves hall).1
  rw [etagOf, (rowOf_placed hplaced).mpr ⟨hr, horigin⟩] at hshows
  rw [← hshows] at hleaves
  obtain ⟨key', o', hitem, hparse', hlookup'⟩ := catalog_of_leaves hleaves
  -- the object that was cataloged last is the one of the row
  have hsame : key' = key := (hmirrors.rows r hr).unique
    ⟨(isFile_iff hplaced hr key').mpr (by rw [hparse', horigin]), by rw [hlookup']; rfl⟩ ⟨hfile, by rw [hlookup]; rfl⟩
  exact ⟨e.1, by rw [hlast, ← hsame, ← hitem]⟩

/-- What the row of an existing object has, if it was cataloged last. -/
theorem Account.etagOf_created (ha : Account h s) (hl : Live env h s) (hsettled : Settled h s) (hcreated : CreatedLast h s)
    {key : PyStr} {o : S3Object} {d : Dims} (hlookup : h.final.lookup key = some o) (hparse : parseHiveKey key = some d) :
    etagOf s.world.conn.committed d = some o.stat.etag := by
  obtain ⟨e, etag, hlast, hleaves, hall⟩ := hsettled.last hl hlookup hparse
  obtain ⟨t, hcatalog⟩ := hcreated key o d hlookup hparse
  cases hlast.symm.trans hcatalog
  have hdecides : leaves h.final d (.catalog key) = some (some o.stat.etag) := by
    rw [leaves_catalog h.final hparse, hlookup]
    rfl
  exact (ha.last d _ _ hlast hdecides hall).1

/-- Every row is of an existing object: a removal whose object does not come back has been processed. -/
theorem Account.exists_object (ha : Account h s) (hplaced : Placed s.world.conn.committed) (hdrained : Drained h s)
    {r : Row FileKey FileCols} (hr : r ∈ s.world.conn.committed.files.rows) :
    ∃ key o, parseHiveKey key = some r.val.origin.dims ∧ h.final.lookup key = some o := by
  by_contra hnone
  have hgone : ∀ key, parseHiveKey key = some r.val.origin.dims → h.final.lookup key = none := by
    intro key hparse
    cases hlookup : h.final.lookup key with
    | none => rfl
    | some o => exact absurd ⟨key, o, hparse, hlookup⟩ hnone
  obtain ⟨c, hc, hparse⟩ := ha.known hplaced hr
  obtain ⟨c', hc', hparse', hcontent, hlatest⟩ := last_change hc hparse
  obtain ⟨e, he, hitem, hsince⟩ := hdrained c' hc'
  rw [hgone _ hparse'] at hcontent
  cases hchange : c'.2 with
  | put key o =>
      rw [hchange] at hcontent
      cases hcontent
  | remove key =>
      rw [hchange] at hitem hparse'
      have habsent := (ha.gone _ hgone e he key hitem hparse' fun c hc hdims => (hlatest c hc hdims).trans hsince).1
      rw [etagOf, (rowOf_placed hplaced).mpr ⟨hr, rfl⟩] at habsent
      cases habsent

/-- If every object was cataloged last, the catalog mirrors the bucket. -/
theorem Account.mirrors (ha : Account h s) (hl : Live env h s) (hdrained : Drained h s) (hsettled : Settled h s)
    (hcreated : CreatedLast h s) : MirrorsBucket s.world.conn.committed h.final := by
  have hplaced := hl.sits.seated.committed
  refine ⟨fun r hr => ?_, fun key o hlookup => ?_, fun r hr key o hfile hlookup => ?_⟩
  · obtain ⟨key, o, hparse, hlookup⟩ := ha.exists_object hplaced hdrained hr
    refine ⟨key, ⟨(isFile_iff hplaced hr key).mpr hparse, by rw [hlookup]; rfl⟩, ?_⟩
    rintro key' ⟨hfile', hsome'⟩
    have hparse' := (isFile_iff hplaced hr key').mp hfile'
    obtain ⟨o', hlookup'⟩ := Option.isSome_iff_exists.mp hsome'
    obtain ⟨t, hlast⟩ := hcreated key o _ hlookup hparse
    obtain ⟨t', hlast'⟩ := hcreated key' o' _ hlookup' hparse'
    cases hlast.symm.trans hlast'
    rfl
  · obtain ⟨c, hc, hput⟩ := put_of_lookup hlookup
    obtain ⟨d, hkey, _⟩ := h.recordings c hc
    have hparse : parseHiveKey key = some d := by
      rw [hput] at hkey
      exact hkey.parses
    obtain ⟨r, hrow, _⟩ := Option.map_eq_some_iff.mp (ha.etagOf_created hl hsettled hcreated hlookup hparse)
    obtain ⟨hr, horigin⟩ := (rowOf_placed hplaced).mp hrow
    refine ⟨r, ⟨hr, (isFile_iff hplaced hr key).mpr (by rw [hparse, horigin])⟩, ?_⟩
    rintro r' ⟨hr', hfile'⟩
    have horigin' : r'.val.origin.dims = d :=
      Option.some.inj (((isFile_iff hplaced hr' key).mp hfile').symm.trans hparse)
    exact Option.some.inj (((rowOf_placed hplaced).mpr ⟨hr', horigin'⟩).symm.trans hrow)
  · have hparse := (isFile_iff hplaced hr key).mp hfile
    have hetag := ha.etagOf_created hl hsettled hcreated hlookup hparse
    rw [etagOf, (rowOf_placed hplaced).mpr ⟨hr, rfl⟩] at hetag
    exact Option.some.inj hetag

/-- **Convergence of the event path**, up to one order: once every notification has been processed, and one of every key since
the last change, the catalog mirrors the bucket exactly if the last that was processed about each existing object says that it
was created. -/
theorem mirrors_iff (hinj : FingerprintInjective env) {t : ℕ}
    (hrun : ReflTransGen (BucketStep env h keyPrefix workers) (BucketState.initial t) s) (hdrained : Drained h s)
    (hsettled : Settled h s) : MirrorsBucket s.world.conn.committed h.final ↔ CreatedLast h s := by
  obtain ⟨hl, ha⟩ := account_of_run hinj hrun
  exact ⟨ha.createdLast hl hsettled, ha.mirrors hl hdrained hsettled⟩

/-- Every run of the event path ends with a catalog that mirrors the bucket. -/
def Converges (env : Env) (keyPrefix : PyStr) (workers : Workers) : Prop :=
  ∀ (h : BucketHistory) (t : ℕ) (s : BucketState),
    ReflTransGen (BucketStep env h keyPrefix workers) (BucketState.initial t) s → Drained h s →
    Settled h s → MirrorsBucket s.world.conn.committed h.final

/-! ### Deliveries -/

theorem clock_item (env : Env) (bucket : ℕ → Bucket) (keyPrefix : PyStr) (workers : Workers) (change : Change) (w : World) :
    w.clock ≤ (workItem env (s3Source bucket keyPrefix) workers change.item w).2.clock := by
  cases change with
  | put key o => exact clock_catalog env bucket keyPrefix workers key w
  | remove key => exact clock_delete env bucket keyPrefix workers key w

/-- The worker takes what is queued. -/
theorem run_of_queue (env : Env) (h : BucketHistory) (keyPrefix : PyStr) (workers : Workers) (announced : List (ℕ × Change))
    (s : BucketState) (hqueue : s.queue = announced.map fun c => c.2.item) :
    ∃ s', ReflTransGen (BucketStep env h keyPrefix workers) s s' ∧
      s'.taken.map Prod.snd = s.taken.map Prod.snd ++ announced.map (fun c => c.2.item) ∧
      ∀ e ∈ s'.taken, e ∈ s.taken ∨ s.world.clock ≤ e.1 := by
  induction announced generalizing s with
  | nil => exact ⟨s, .refl, (List.append_nil _).symm, fun e he => Or.inl he⟩
  | cons c announced ih =>
      obtain ⟨s', hrun, htaken, hsince⟩ := ih ⟨announced.map fun c => c.2.item,
        (workItem env (s3Source h.bucketAt keyPrefix) workers c.2.item (scripted s.world [])).2,
        s.taken ++ [(s.world.clock, c.2.item)]⟩ rfl
      refine ⟨s', ReflTransGen.head (BucketStep.work s c.2.item _ hqueue) hrun, ?_, fun e he => ?_⟩
      · rw [htaken, List.map_append, List.append_assoc]
        rfl
      · cases hsince e he with
        | inl hmem =>
            cases List.mem_append.mp hmem with
            | inl hold => exact Or.inl hold
            | inr hnew =>
                rw [List.mem_singleton.mp hnew]
                exact Or.inr (le_refl _)
        | inr hlater =>
            exact Or.inr ((clock_item env h.bucketAt keyPrefix workers c.2 (scripted s.world [])).trans hlater)

/-- The record of a notification. -/
def recordOf (change : Change) : S3Record := ⟨change.eventName, [], some (percentEncode change.key)⟩

theorem announces_recordOf {change : Change} (h : encodable change.key = true) : Announces change (recordOf change) :=
  ⟨List.isPrefixOf_iff_prefix.mpr (List.prefix_refl _), percentEncode change.key, rfl, unquotePlus_percentEncode h⟩

/-- **Notifications in the order of a list**, of changes of the past: they are delivered in one message and processed. -/
theorem run_of_deliveries (env : Env) (h : BucketHistory) (keyPrefix : PyStr) (workers : Workers) {t : ℕ}
    (announced : List (ℕ × Change)) (hpast : ∀ c ∈ announced, c ∈ h.changes ∧ c.1 ≤ t) :
    ∃ s, ReflTransGen (BucketStep env h keyPrefix workers) (BucketState.initial t) s ∧
      s.taken.map Prod.snd = announced.map (fun c => c.2.item) ∧ ∀ e ∈ s.taken, t ≤ e.1 := by
  have hkeys : ∀ c ∈ announced, c.2.OfRecording := fun c hc => h.recordings c (hpast c hc).1
  have hrecords : List.Forall₂ (fun c record => Announces c.2 record) announced
      (announced.map fun c => recordOf c.2) := by
    rw [List.forall₂_map_right_iff, List.forall₂_same]
    intro c hc
    obtain ⟨dims, hkey, _⟩ := hkeys c hc
    exact announces_recordOf hkey.encodable
  have hdeliver : BucketStep env h keyPrefix workers (BucketState.initial t) _ :=
    .deliver (BucketState.initial t) announced _ hpast hrecords
  obtain ⟨s, hrun, htaken, hsince⟩ := run_of_queue env h keyPrefix workers announced
    { BucketState.initial t with
      queue := (BucketState.initial t).queue ++ s3EventProducer [some (announced.map fun c => recordOf c.2)] } (by
      rw [s3EventProducer, List.flatMap_singleton, Option.getD_some, enqueueRecords_announced hkeys hrecords]
      rfl)
  refine ⟨s, .head hdeliver hrun, htaken, fun e he => ?_⟩
  cases hsince e he with
  | inl hold => cases hold
  | inr hlater => exact hlater

/-- So every notification was processed, since the last change. -/
theorem drained_of_deliveries {t : ℕ} {announced : List (ℕ × Change)} (hall : ∀ c ∈ h.changes, c ∈ announced)
    (hlate : ∀ c ∈ h.changes, c.1 ≤ t) (htaken : s.taken.map Prod.snd = announced.map fun c => c.2.item)
    (hsince : ∀ e ∈ s.taken, t ≤ e.1) : Drained h s ∧ Settled h s := by
  have hitem : ∀ c ∈ h.changes, ∃ e ∈ s.taken, e.2 = c.2.item ∧ t ≤ e.1 := by
    intro c hc
    have hmem : c.2.item ∈ s.taken.map Prod.snd := by
      rw [htaken]
      exact List.mem_map_of_mem (hall c hc)
    obtain ⟨e, he, hsame⟩ := List.mem_map.mp hmem
    exact ⟨e, he, hsame, hsince e he⟩
  constructor
  · intro c hc
    obtain ⟨e, he, hsame, ht⟩ := hitem c hc
    exact ⟨e, he, hsame, (hlate c hc).trans ht⟩
  · intro c hc
    obtain ⟨e, he, hsame, ht⟩ := hitem c hc
    exact ⟨e, he, by rw [hsame]; exact (about_item _ _).mpr rfl, fun c' hc' => (hlate c' hc').trans ht⟩

/-- The last item taken, if it decides. -/
theorem lastOf_of_items {final : Bucket} {d : Dims} (items : List WorkItem) {item : WorkItem} {etag : Option PyStr}
    (htaken : s.taken.map Prod.snd = items ++ [item]) (hleaves : leaves final d item = some etag) :
    ∃ t, lastOf final d s.taken = some (t, item) := by
  rcases List.eq_nil_or_concat' s.taken with hnil | ⟨before, e, hlast⟩
  · rw [hnil] at htaken
    cases List.append_ne_nil_of_right_ne_nil items (List.cons_ne_nil item []) htaken.symm
  · rw [hlast, List.map_append] at htaken
    have hitem : e.2 = item := List.singleton_injective (List.append_inj' htaken rfl).2
    refine ⟨e.1, ?_⟩
    rw [hlast, lastOf_append_self (by rw [hitem]; exact hleaves), ← hitem]

end Runs

/-! ### A removal that comes again -/

/-- The recording. -/
def sampleObject : S3Object := ⟨py "abc", 100, 5, fun _ => .ok (some twoChannelSummary)⟩

theorem hiveKey_sample : HiveKey sampleKey sampleDims := ⟨by decide +kernel, by decide +kernel⟩

theorem readable_sample : Readable sampleKey sampleDims sampleObject := by
  have hstored : (summaryFromStream (some twoChannelSummary)).toOption.map
      (fun summary => (transactionError true ⟨sampleDims, sampleKey, sampleObject.stat, summary⟩).isNone) = some true := by
    decide +kernel
  obtain ⟨summary, hsome, hnone⟩ := Option.map_eq_some_iff.mp hstored
  refine ⟨some twoChannelSummary, summary, rfl, ?_, Option.isNone_iff_eq_none.mp hnone⟩
  cases hsummary : summaryFromStream (some twoChannelSummary) with
  | ok summary' =>
      rw [hsummary] at hsome
      rw [show summary' = summary from Option.some.inj hsome]
  | error e =>
      rw [hsummary] at hsome
      cases hsome

def firstPut : ℕ × Change := (0, .put sampleKey sampleObject)
def removal : ℕ × Change := (1, .remove sampleKey)
def secondPut : ℕ × Change := (2, .put sampleKey sampleObject)

/-- The recording is put, removed and put again. -/
def putBack : BucketHistory where
  changes := [firstPut, removal, secondPut]
  ordered := by decide
  recordings := by
    have hput : (Change.put sampleKey sampleObject).OfRecording := by
      refine ⟨sampleDims, hiveKey_sample, fun o ho => ?_⟩
      cases ho
      exact readable_sample
    have hremove : (Change.remove sampleKey).OfRecording := ⟨sampleDims, hiveKey_sample, fun o ho => by cases ho⟩
    simp [firstPut, removal, secondPut, hput, hremove]

/-- There is one object in the end. -/
theorem lookup_putBack (key : PyStr) : putBack.final.lookup key = if sampleKey = key then some sampleObject else none := by
  rw [BucketHistory.final, lookup_contents]
  by_cases h : sampleKey = key
  · rw [if_pos h, ← h]
    rfl
  · have hkeys : ∀ c ∈ putBack.changes, c.2.key = sampleKey := by
      simp [putBack, firstPut, removal, secondPut, Change.key]
    have hnone : putBack.changes.filter (fun c => c.2.key = key) = [] := by
      rw [List.filter_eq_nil_iff]
      intro c hc hkey
      rw [hkeys c hc] at hkey
      exact h (of_decide_eq_true hkey)
    rw [if_neg h, hnone]
    rfl

/-- All has happened at the moment of the second put. -/
theorem past_putBack : ∀ c ∈ putBack.changes, c.1 ≤ 2 := by decide

/-- **A removal that comes again.**  The notifications are processed in order, and that of the removal once more: it deletes the
row of the object that was put back. -/
theorem not_converges : ¬Converges oneTopicEnv [] .one := by
  intro hconverges
  have hannounced : ∀ c ∈ [firstPut, removal, secondPut, removal], c ∈ putBack.changes ∧ c.1 ≤ 2 := by
    simp [putBack, firstPut, removal, secondPut]
  obtain ⟨s, hrun, htaken, hsince⟩ := run_of_deliveries oneTopicEnv putBack [] .one _ hannounced
  obtain ⟨hdrained, hsettled⟩ := drained_of_deliveries (by simp [putBack]) past_putBack htaken hsince
  obtain ⟨hl, ha⟩ := account_of_run fingerprintInjective_oneTopicEnv hrun
  have hcreated := ha.createdLast hl hsettled (hconverges putBack 2 s hrun hdrained hsettled)
  have hthere : putBack.final.lookup sampleKey = some sampleObject := (lookup_putBack _).trans (if_pos rfl)
  obtain ⟨t, hcatalog⟩ := hcreated sampleKey sampleObject sampleDims hthere hiveKey_sample.parses
  obtain ⟨t', hdelete⟩ := lastOf_of_items [.catalog sampleKey, .delete sampleKey, .catalog sampleKey] htaken
    (leaves_delete putBack.final hiveKey_sample.parses)
  rw [hcatalog] at hdelete
  cases hdelete

/-- A removal that comes before the creations. -/
theorem mirrors_iff_early : ∃ s, ReflTransGen (BucketStep oneTopicEnv putBack [] .one) (BucketState.initial 2) s ∧
    s.taken.map Prod.snd = [.delete sampleKey, .catalog sampleKey, .catalog sampleKey] ∧
    MirrorsBucket s.world.conn.committed putBack.final := by
  have hannounced : ∀ c ∈ [removal, firstPut, secondPut], c ∈ putBack.changes ∧ c.1 ≤ 2 := by
    simp [putBack, firstPut, removal, secondPut]
  obtain ⟨s, hrun, htaken, hsince⟩ := run_of_deliveries oneTopicEnv putBack [] .one _ hannounced
  obtain ⟨hdrained, hsettled⟩ := drained_of_deliveries (by simp [putBack]) past_putBack htaken hsince
  refine ⟨s, hrun, htaken, (mirrors_iff fingerprintInjective_oneTopicEnv hrun hdrained hsettled).mpr ?_⟩
  intro key o dims hlookup hparse
  have hkey : sampleKey = key := by
    by_contra hother
    rw [lookup_putBack, if_neg hother] at hlookup
    cases hlookup
  rw [← hkey] at hlookup hparse ⊢
  have hleaves : leaves putBack.final dims (.catalog sampleKey) = some (some o.stat.etag) := by
    rw [leaves_catalog _ hparse, hlookup]
    rfl
  exact lastOf_of_items [.delete sampleKey, .catalog sampleKey] htaken hleaves

end McapCatalog.EventPath
