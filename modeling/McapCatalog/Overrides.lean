import McapCatalog.Runs

/-!
# Overrides survive the builder

The user's tags of a file live behind a cascading foreign key on a row that the builder upserts, rolls back and
rewrites.  This file follows one identity through a run of the worker.

* `Holds`, `Keeps` — the identity's row, and what a call keeps of it as long as it deletes no such row;
* `act_keeps` — **each act of the builder** keeps it, and so does every path of acts;
* `mem_tagsEffective` — the view `tags_effective` is the override-wins merge.
-/

namespace McapCatalog.Runs

open McapCatalog.PyText McapCatalog.PyError McapCatalog.KeyParse McapCatalog.Storage McapCatalog.Tables
open McapCatalog.RowidTable McapCatalog.KeyedRows McapCatalog.Connection McapCatalog.CatalogDb
open McapCatalog.Builder McapCatalog.Reconcile McapCatalog.Worker
open McapCatalog.SurvivingState McapCatalog.SurvivingState.Comp

/-! ### Looking a file up by its names -/

/-- The row found is the first one with the names. -/
theorem lookupFile_eq_some_iff {db : Db} {dims : Dims} {r : Row FileKey FileCols} :
    db.lookupFile dims = some r ↔ r ∈ db.files.rows ∧ db.namesOf r.key = some dims ∧
      ∀ r' ∈ db.files.rows, r'.id < r.id → db.namesOf r'.key ≠ some dims := by
  rw [Db.lookupFile, List.find?_eq_some_iff_append]
  have horder := db.files.idOrder
  constructor
  · rintro ⟨hp, as, bs, hrows, hnot⟩
    refine ⟨by rw [hrows]; simp, by simpa using hp, ?_⟩
    intro r' hr' hlt
    rw [hrows] at hr' horder
    rw [List.pairwise_append, List.pairwise_cons] at horder
    rcases List.mem_append.mp hr' with hr' | hr'
    · simpa using hnot r' hr'
    · rcases List.mem_cons.mp hr' with rfl | hr'
      · exact absurd hlt (Nat.lt_irrefl _)
      · have := horder.2.1.1 r' hr'
        omega
  · rintro ⟨hr, hnames, hfirst⟩
    obtain ⟨as, bs, hrows⟩ := List.append_of_mem hr
    refine ⟨by simpa using hnames, as, bs, hrows, ?_⟩
    intro r' hr'
    rw [hrows, List.pairwise_append] at horder
    have hlt := horder.2.2 r' hr' r List.mem_cons_self
    simpa using hfirst r' (by rw [hrows]; exact List.mem_append_left _ hr') hlt

/-! ### One identity through the acts of the builder -/

/-- The identity's row has the id `i`, committed and in the connection's view. -/
def Holds (dims : Dims) (i : ℕ) (w : World) : Prop :=
  (∃ r, w.conn.committed.lookupFile dims = some r ∧ r.id = i) ∧
    ∃ r, w.conn.working.lookupFile dims = some r ∧ r.id = i

/-- How often a row with the id `i` was deleted. -/
def deletions (i : ℕ) (w : World) : ℕ := w.conn.working.removed.count i

/-- What a call keeps of an identity's row: the row and its overrides stay unless a row with its id is deleted. -/
def Keeps (dims : Dims) (i : ℕ) (w w' : World) : Prop :=
  deletions i w ≤ deletions i w' ∧
    (deletions i w = deletions i w' → Holds dims i w →
      Holds dims i w' ∧
        ∀ k, w'.conn.working.tagsOverride.lookup (i, k) = w.conn.working.tagsOverride.lookup (i, k))

variable {env : Env} {dims : Dims} {i : ℕ} {w w' : World}

theorem Keeps.refl (w : World) : Keeps dims i w w := ⟨Nat.le_refl _, fun _ h => ⟨h, fun _ => rfl⟩⟩

theorem Keeps.trans {a b c : World} (h : Keeps dims i a b) (h' : Keeps dims i b c) : Keeps dims i a c := by
  refine ⟨Nat.le_trans h.1 h'.1, fun heq hold => ?_⟩
  have h1 := h.1
  have h2 := h'.1
  obtain ⟨hb, hob⟩ := h.2 (by omega) hold
  obtain ⟨hc, hoc⟩ := h'.2 (by omega) hb
  exact ⟨hc, fun k => (hoc k).trans (hob k)⟩

/-- The row looked up by names is found again in a database with the same rows and grown dimensions. -/
theorem lookupFile_of_grow {db db' : Db} (hinv : CatalogInv env db) (hd : DimsGrow db db')
    (hfiles : db'.files = db.files) (dims : Dims) : db'.lookupFile dims = db.lookupFile dims := by
  have hcongr : ∀ l : List (Row FileKey FileCols), (∀ r ∈ l, r ∈ db.files.rows) →
      l.find? (fun r => db'.namesOf r.key = some dims) = l.find? (fun r => db.namesOf r.key = some dims) := by
    intro l hl
    induction l with
    | nil => rfl
    | cons r l ih =>
        rw [List.find?_cons, List.find?_cons, ih fun r' hr' => hl r' (List.mem_cons_of_mem _ hr'),
          namesOf_of_namesGrow hd.names (hinv.fileRefs r (hl r List.mem_cons_self))]
  rw [Db.lookupFile, Db.lookupFile, hfiles]
  exact hcongr _ fun _ h => h

/-- A deletion that spares the row leaves it the first with its names. -/
theorem lookupFile_deleteFiles {db : Db} {p : Row FileKey FileCols → Bool} {r : Row FileKey FileCols}
    (hr : db.lookupFile dims = some r) (hp : p r = false) :
    (db.deleteFiles p).lookupFile dims = some r := by
  obtain ⟨hmem, hnames, hfirst⟩ := lookupFile_eq_some_iff.mp hr
  refine lookupFile_eq_some_iff.mpr ⟨Table.mem_filter.mpr ⟨hmem, by simp [hp]⟩, hnames, ?_⟩
  intro r' hr' hlt
  exact hfirst r' (Table.mem_filter.mp hr').1 hlt

/-- A committed file transaction leaves the row of every identity that has one where it is. -/
theorem lookupFile_wrote {db db' : Db} {key : FileKey} {written : Written} (hw : Wrote env key written db db')
    {r : Row FileKey FileCols} (hr : db.lookupFile dims = some r) :
    ∃ r', db'.lookupFile dims = some r' ∧ r'.id = r.id := by
  obtain ⟨now, setId, blob, hfiles, _⟩ := hw.files
  obtain ⟨hmem, hnames, hfirst⟩ := lookupFile_eq_some_iff.mp hr
  have hnamesOf : ∀ k, db'.namesOf k = db.namesOf k := by
    intro k
    rw [Db.namesOf, Db.namesOf, hw.customers, hw.sites, hw.robots, hw.sources]
  have hget := Table.get_upsert db.files key (storedCols written now setId blob) r.id
  -- The row itself: kept, or updated under its own id.
  have hrow : ∃ r', r' ∈ db'.files.rows ∧ r'.id = r.id ∧ r'.key = r.key := by
    by_cases hid : r.id = db.files.upsertId key
    · rw [if_pos hid] at hget
      refine ⟨_, (by rw [hfiles]; exact (Table.get_eq_some_iff.mp hget).1), hid.symm, ?_⟩
      rcases hfind : db.files.find key with _ | r₀
      · have hnext : db.files.upsertId key = db.files.nextId := by
          rw [Table.upsertId, Table.idOf_eq_none_iff.mpr hfind]
          rfl
        have := db.files.id_lt_nextId hmem
        omega
      · obtain ⟨hmem₀, hkey₀⟩ := Table.find_eq_some_iff.mp hfind
        have hid₀ : db.files.upsertId key = r₀.id := by
          rw [Table.upsertId, Table.idOf, hfind]
          rfl
        rw [db.files.eq_of_id_eq hmem hmem₀ (hid.trans hid₀)]
        exact hkey₀.symm
    · rw [if_neg hid, Table.get_of_mem hmem] at hget
      exact ⟨r, by rw [hfiles]; exact (Table.get_eq_some_iff.mp hget).1, rfl, rfl⟩
  obtain ⟨r', hr', hid', hkey'⟩ := hrow
  refine ⟨r', lookupFile_eq_some_iff.mpr ⟨hr', by rw [hnamesOf, hkey', hnames], ?_⟩, hid'⟩
  intro q hq hlt
  rw [hnamesOf]
  rw [hfiles] at hq
  rcases Table.mem_upsert.mp hq with ⟨hq, _⟩ | rfl
  · exact hfirst q hq (by omega)
  · -- An upserted row below `r` is an old row rewritten.
    rcases hfind : db.files.find key with _ | r₀
    · have hnext : db.files.upsertId key = db.files.nextId := by
        rw [Table.upsertId, Table.idOf_eq_none_iff.mpr hfind]
        rfl
      have := db.files.id_lt_nextId hmem
      simp only at hlt
      omega
    · obtain ⟨hmem₀, hkey₀⟩ := Table.find_eq_some_iff.mp hfind
      have hid₀ : db.files.upsertId key = r₀.id := by
        rw [Table.upsertId, Table.idOf, hfind]
        rfl
      have := hfirst r₀ hmem₀ (by simp only [hid₀] at hlt; omega)
      rwa [hkey₀] at this

/-- **Each act of the builder keeps the row and its overrides.** -/
theorem act_keeps (h : Act env w w') (hi : WorldInv env w) : Keeps dims i w w' := by
  cases h with
  | tick => exact ⟨Nat.le_refl _, fun _ h => ⟨h, fun _ => rfl⟩⟩
  | @dims db' caches ho ht hs hx =>
      obtain ⟨hg, c, s, r, x, rfl⟩ := ho
      refine ⟨Nat.le_refl _, fun _ h => ⟨⟨h.1, ?_⟩, fun _ => rfl⟩⟩
      obtain ⟨r, hr, hid⟩ := h.2
      exact ⟨r, by rw [← hr]; exact lookupFile_of_grow hi.working hg rfl _, hid⟩
  | delete p =>
      refine ⟨?_, fun heq h => ?_⟩
      · show _ ≤ (w.conn.working.deleteFiles p).removed.count i
        rw [count_removed_deleteFiles]
        exact Nat.le_add_left _ _
      · have hgoes : goes p w.conn.working i = false := by
          have heq' : w.conn.working.removed.count i = (w.conn.working.deleteFiles p).removed.count i := heq
          rw [count_removed_deleteFiles] at heq'
          cases hg : goes p w.conn.working i with
          | true => rw [hg, if_pos rfl] at heq'; omega
          | false => rfl
        obtain ⟨r, hr, rfl⟩ := h.2
        have hmem := (lookupFile_eq_some_iff.mp hr).1
        rw [goes_of_get (Table.get_of_mem hmem)] at hgoes
        refine ⟨⟨h.1, r, lookupFile_deleteFiles hr hgoes, rfl⟩, fun k => ?_⟩
        show (w.conn.working.deleteFiles p).tagsOverride.lookup (r.id, k) = _
        rw [lookup_override_deleteFiles, goes_of_get (Table.get_of_mem hmem), hgoes]
        rfl
  | failures f b => exact ⟨Nat.le_refl _, fun _ h => ⟨h, fun _ => rfl⟩⟩
  | commit => exact ⟨Nat.le_refl _, fun _ h => ⟨⟨h.2, h.2⟩, fun _ => rfl⟩⟩
  | @wrote ids written db' hsync hids hw =>
      refine ⟨?_, fun _ h => ?_⟩
      · show _ ≤ db'.removed.count i
        rw [hw.removed]
        exact Nat.le_refl _
      · obtain ⟨r, hr, hid⟩ := h.2
        obtain ⟨r', hr', hid'⟩ := lookupFile_wrote hw hr
        refine ⟨⟨⟨r', hr', hid'.trans hid⟩, r', hr', hid'.trans hid⟩, fun k => ?_⟩
        show db'.tagsOverride.lookup (i, k) = _
        rw [hw.tagsOverride]
  | reload t hsync => exact ⟨Nat.le_refl _, fun _ h => ⟨h, fun _ => rfl⟩⟩

/-- A path keeps what each of its acts keeps. -/
theorem path_keeps (h : Path env w w') (hi : WorldInv env w) : Keeps dims i w w' := by
  induction h with
  | refl => exact Keeps.refl w
  | tail hpath hact ih => exact ih.trans (act_keeps hact (Path.worldInv hpath hi))

/-! ### The effective tags -/

/-- The overrides of one file, by tag key. -/
abbrev Overrides : Type := PyStr → Option (Option PyStr × ℤ)

/-- The stored overrides of a file. -/
def overridesOf (db : Db) (i : ℕ) : Overrides := fun k => db.tagsOverride.lookup (i, k)

/-- **Override wins**: a key with an override shows its value, or nothing if it masks; any other key shows what
is embedded. -/
theorem mem_tagsEffective {db : Db} {k v : PyStr} {isOverride : Bool} :
    (k, v, isOverride) ∈ db.tagsEffective i ↔
      match overridesOf db i k with
      | some (value, _) => value = some v ∧ isOverride = true
      | none => db.tagsEmbedded.lookup (i, k) = some v ∧ isOverride = false := by
  simp only [Db.tagsEffective, List.mem_append, List.mem_filterMap, List.mem_map, List.mem_filter]
  constructor
  · rintro (⟨⟨k', value, t⟩, hmem, hv⟩ | ⟨⟨k', v'⟩, ⟨hmem, hnone⟩, heq⟩)
    · obtain ⟨v', rfl, heq⟩ := Option.map_eq_some_iff.mp hv
      cases heq
      rw [overridesOf, mem_under.mp hmem]
      exact ⟨rfl, rfl⟩
    · cases heq
      rw [overridesOf, Option.isNone_iff_eq_none.mp hnone]
      exact ⟨mem_under.mp hmem, rfl⟩
  · intro h
    rcases ho : overridesOf db i k with _ | ⟨value, t⟩
    · rw [ho] at h
      obtain ⟨hemb, rfl⟩ := h
      exact Or.inr ⟨(k, v), ⟨mem_under.mpr hemb, Option.isNone_iff_eq_none.mpr ho⟩, rfl⟩
    · rw [ho] at h
      obtain ⟨rfl, rfl⟩ := h
      exact Or.inl ⟨(k, some v, t), mem_under.mpr ho, rfl⟩

end McapCatalog.Runs
