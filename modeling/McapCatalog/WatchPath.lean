import McapCatalog.WatchedEvents
import McapCatalog.PlainSource

/-!
# The path from a watched tree to the catalog

The watcher calls back for each change of a tree, in order and after it has happened; debounce timers put catalog events, and
deletions are put at once; the worker polls, looks for the file and catalogs it.  Unlike the notifications of a bucket,
callbacks come in order and once.

* `WatchState`, `WatchStep` — handler, queue and worker, with each callback, lock section, timer and item a step of its own;
* `Live`, `Account` — what holds in every run, and what the items taken so far say about the rows;
* `Live.rests` — every run can come to rest;
* `mirrors_at_rest` — **once everything is at rest the catalog mirrors the tree**, without a rescan.
-/

namespace McapCatalog.WatchPath

open McapCatalog.PyText McapCatalog.PyError McapCatalog.KeyParse McapCatalog.McapSummary McapCatalog.Storage
open McapCatalog.Tables McapCatalog.RowidTable McapCatalog.KeyedRows
open McapCatalog.Connection McapCatalog.CatalogDb McapCatalog.Builder McapCatalog.Reconcile McapCatalog.Worker McapCatalog.Runs
open McapCatalog.LocalFiles McapCatalog.EventPath McapCatalog.Debounce
open McapCatalog.Discovery (FsEvent isCatalogable)
open Relation

/-! ### The event path -/

/-- An item that the worker has taken: when, with how many callbacks begun it was put, and what it is. -/
structure Taken where
  time : ℕ
  stamp : ℕ
  item : WorkItem

/-- The handler, the builder, and the items that its worker has taken off the queue. -/
structure WatchState where
  handler : Handler
  world : World
  taken : List Taken

/-- Time passes, the watcher calls back for the next change after it has happened, a thread of the handler moves, or the worker
takes the next event. -/
inductive WatchStep (env : Env) (h : TreeHistory) (watch : Watch) (polling : Polling) (workers : Workers) :
    WatchState → WatchState → Prop where
  | wait (s : WatchState) : WatchStep env h watch polling workers s { s with world := s.world.tickClock }
  | calls (s : WatchState) {c : ℕ × Change} {handler' : Handler} (hc : h.changes[begun s.handler.log]? = some c)
      (hpast : c.1 ≤ s.world.clock) (hs : step s.handler (.begin (c.2.callback watch)) = some handler') :
      WatchStep env h watch polling workers s { s with handler := handler' }
  | moves (s : WatchState) {m : Debounce.Move} {handler' : Handler} (hm : ∀ c, m ≠ .begin c)
      (hs : step s.handler m = some handler') : WatchStep env h watch polling workers s { s with handler := handler' }
  | works (s : WatchState) {e : ℕ × WorkItem} (hqueue : (stamped s.handler.log)[s.taken.length]? = some e) :
      WatchStep env h watch polling workers s ⟨s.handler,
        (workItem env (treeSource watch polling h.treeAt) workers e.2 (scripted s.world [])).2,
        s.taken ++ [⟨s.world.clock, e.1, e.2⟩]⟩

/-- The file of an identity: the one at its path, if that has a catalogable name. -/
def fileOf (tree : Tree) (dims : Dims) : Option LocalFile :=
  if parseHiveKey (rebuildHiveKey dims) = some dims ∧ isCatalogable (rebuildHiveKey dims) = true then
    tree.lookup (rebuildHiveKey dims)
  else none

/-- The file can be read and stored under its key. -/
def Readable (key : PyStr) (dims : Dims) (file : LocalFile) : Prop :=
  ∃ parsed summary, file.parse = .ok parsed ∧ summaryFromStream parsed = .ok summary ∧
    transactionError true ⟨dims, key, file.stat, summary⟩ = none

/-- The file of an identity, if there is one, can be read and stored. -/
def WholeFile (tree : Tree) (dims : Dims) : Prop :=
  ∀ file, fileOf tree dims = some file → Readable (rebuildHiveKey dims) dims file

/-- **The rows are those of the files**: an identity has a row exactly if there is a file at its path, with its etag; of a file
that cannot be read nothing is said. -/
def MirrorsTree (db : Db) (tree : Tree) : Prop :=
  ∀ dims, WholeFile tree dims → EventPath.etagOf db dims = (fileOf tree dims).map fun file => file.stat.etag

/-- A builder that starts to watch, with a catalog that mirrors the tree. -/
structure Starts (env : Env) (h : TreeHistory) (s : WatchState) : Prop where
  handler : s.handler = Handler.idle
  taken : s.taken = []
  sits : Sits env s.world
  shows : ∀ dims, WholeFile h.start dims → Shows s.world dims ((fileOf h.start dims).map fun file => file.stat.etag)

/-- Every thread is at rest, every change has been called back for, and the queue is empty. -/
structure AtRest (h : TreeHistory) (s : WatchState) : Prop where
  handler : s.handler.AtRest
  called : begun s.handler.log = h.changes.length
  taken : s.taken.length = (stamped s.handler.log).length

/-- **What holds on the way**: items are taken in order, after the changes whose callbacks had begun. -/
structure Live (env : Env) (h : TreeHistory) (watch : Watch) (s : WatchState) : Prop where
  sits : Sits env s.world
  tracked : Tracked h watch s.handler
  past : ∀ n c, n < begun s.handler.log → h.changes[n]? = some c → c.1 ≤ s.world.clock
  fifo : s.taken.map (fun e => (e.stamp, e.item)) <+: stamped s.handler.log
  since : ∀ e ∈ s.taken, e.time ≤ s.world.clock ∧ ∀ n c, n < e.stamp → h.changes[n]? = some c → c.1 ≤ e.time

/-- The key that an item is about. -/
def keyOf (watch : Watch) : WorkItem → Option PyStr
  | .catalog path | .delete path => some (watch.eventKey path)
  | _ => none

/-- From the moment of the item on, the key has what it has in the end. -/
def Settled (h : TreeHistory) (key : PyStr) (t : ℕ) : Prop := ∀ c ∈ h.changes, c.2.touches key = true → c.1 ≤ t

/-- What the items taken so far say about the rows: an identity without an item is as it was; one whose file was cataloged last
shows it; one whose file was deleted for good has no row. -/
structure Account (h : TreeHistory) (watch : Watch) (s : WatchState) : Prop where
  untouched : ∀ dims, WholeFile h.start dims →
    (∀ e ∈ s.taken, ∀ key, keyOf watch e.item = some key → parseHiveKey key ≠ some dims) →
    Shows s.world dims ((fileOf h.start dims).map fun file => file.stat.etag)
  there : ∀ key dims file before e after, IsPath key → HiveKey key dims → Readable key dims file →
    h.final.lookup key = some file → s.taken = before ++ e :: after → e.item = .catalog (watch.absPath key) → Settled h key e.time →
    (∀ e' ∈ after, e'.item ≠ .delete (watch.absPath key)) → Shows s.world dims (some file.stat.etag)
  gone : ∀ key dims, IsPath key → HiveKey key dims → h.final.lookup key = none → ∀ e ∈ s.taken,
    e.item = .delete (watch.absPath key) → Settled h key e.time → Shows s.world dims none

/-! ### What one item does -/

section Items

variable {env : Env} {h : TreeHistory} {watch : Watch} {polling : Polling} {workers : Workers} {w : World} {path key : PyStr}
  {dims other : Dims} {file : LocalFile} {t t' : ℕ} {e : ℕ × WorkItem}

/-- A path below the root that is a Hive key is the one its fields give. -/
theorem IsPath.eq_rebuild (h : IsPath key) (hkey : HiveKey key dims) : key = rebuildHiveKey dims := by
  obtain ⟨_, hrebuilt, _⟩ := (trustedDims_none_iff key dims key).mp hkey.trusted
  rw [← hrebuilt]
  cases key with
  | nil => rfl
  | cons c rest => exact (lstrip_cons_of_ne (fun heq => h.head (by rw [heq]; rfl)) rest).symm

/-- A catalogable path that parses is a Hive key, as nothing follows its name. -/
theorem hiveKey_of_parses (hpath : IsPath key) (hcat : isCatalogable key = true) (hencodable : encodable key = true)
    (hparse : parseHiveKey key = some dims) : HiveKey key dims := by
  have hstrip : lstrip key (cp '/') = key := by
    cases key with
    | nil => rfl
    | cons c rest => exact lstrip_cons_of_ne (fun heq => hpath.head (by rw [heq]; rfl)) rest
  obtain ⟨tail, htail, hrebuilt⟩ := parseHiveKey_eq_some hparse
  have hnil : tail = [] := by
    refine (of_decide_eq_true htail).resolve_right fun hnewline => ?_
    have hlast := getLast_of_isCatalogable hcat
    rw [← hstrip, hrebuilt, hnewline, List.getLast?_append_of_ne_nil _ (by decide)] at hlast
    exact absurd hlast (by decide)
  rw [hnil, List.append_nil] at hrebuilt
  exact ⟨(trustedDims_none_iff key dims key).mpr ⟨wellFormed_of_parse hparse, hrebuilt, rfl⟩, hencodable⟩

/-- The files of a history carry no other keys. -/
theorem plain_treeSource (h : TreeHistory) (watch : Watch) (polling : Polling) : Plain (treeSource watch polling h.treeAt) where
  answers t key := ⟨_, stat_treeSource watch polling h.treeAt t key⟩
  truthful t key := by
    cases hlookup : (h.treeAt t).lookup key with
    | none =>
        simp only [treeSource, localSource, treeFs, hlookup]
        rfl
    | some file =>
        have htruthful : Truthful key file := truthful_contents (fun c hc => (List.mem_filter.mp hc).1) hlookup
        cases hkey : file.s3Key with
        | error err =>
            simp only [treeSource, localSource, treeFs, hlookup, hkey]
            rfl
        | ok found =>
            simp only [treeSource, localSource, treeFs, hlookup, hkey]
            cases found with
            | none => rfl
            | some k => exact htruthful k hkey

/-- What an event that is put is about. -/
structure About (watch : Watch) (item : WorkItem) (key : PyStr) : Prop where
  path : IsPath key
  catalogable : isCatalogable key = true
  encodable : encodable key = true
  keyed : keyOf watch item = some key
  item : item = .catalog (watch.absPath key) ∨ item = .delete (watch.absPath key)

/-- An event that is put is about a path below the root. -/
theorem Founded.about (hf : Founded h watch e) : ∃ key, About watch e.2 key := by
  obtain ⟨path, ⟨key, c, hc, htouch, hcat, rfl⟩, hitem⟩ := hf
  have hproper := h.proper c hc
  have hpath := hproper.paths key htouch
  have hevent := congrArg some (eventKey_absPath watch hpath)
  refine ⟨key, hpath, hcat, hproper.encodable key htouch hcat, ?_, hitem.imp_right fun hdelete => hdelete.1⟩
  rcases hitem with hitem | ⟨hitem, _⟩
  · rw [hitem]
    exact hevent
  · rw [hitem]
    exact hevent

/-- Its identity, if it has one. -/
theorem About.hiveKey {item : WorkItem} (ha : About watch item key) (hparse : parseHiveKey key = some dims) : HiveKey key dims :=
  hiveKey_of_parses ha.path ha.catalogable ha.encodable hparse

/-- An item keeps the invariants and the rows of other identities, and takes time. -/
theorem item_keeps (hinj : FingerprintInjective env) (hs : Sits env w) (polling : Polling) (workers : Workers)
    {item : WorkItem} (ha : About watch item key) :
    Sits env (workItem env (treeSource watch polling h.treeAt) workers item (scripted w [])).2 ∧
      w.clock ≤ (workItem env (treeSource watch polling h.treeAt) workers item (scripted w [])).2.clock ∧
      ∀ other, parseHiveKey key ≠ some other → ∀ etag, Shows w other etag →
        Shows (workItem env (treeSource watch polling h.treeAt) workers item (scripted w [])).2 other etag := by
  have hp := plain_treeSource h watch polling
  have hevent : (treeSource watch polling h.treeAt).eventKey (watch.absPath key) = key := eventKey_absPath watch ha.path
  have hencodable := ha.encodable
  rcases ha.item with rfl | rfl
  · rw [← hevent] at hencodable
    refine ⟨hs.catalogPlain hinj hp hencodable, clock_plain hp env workers _ (scripted w []), fun other hne etag hshows => ?_⟩
    rw [← hevent] at hne
    exact frame_plain hinj hs hp hencodable hne hshows
  · refine ⟨hs.delete hinj _, clock_removed env _ workers _ (scripted w []), fun other hne etag hshows => ?_⟩
    cases hparse : parseHiveKey key with
    | none =>
        rw [← hevent] at hparse
        rw [removed_unparsed env _ workers _ hparse]
        exact hshows
    | some dims =>
        have hkey := ha.hiveKey hparse
        rw [← hevent] at hkey
        refine (shows_removed hs _ workers hkey).2 other ?_ etag hshows
        rintro rfl
        exact hne hparse

/-- From the moment it is settled on, a key has what it has in the end. -/
theorem Settled.lookup (hs : Settled h key t) (ht : t ≤ t') : (h.treeAt t').lookup key = h.final.lookup key :=
  lookup_treeAt fun c hc htouch => (hs c hc htouch).trans ht

theorem Settled.later (hs : Settled h key t) (ht : t ≤ t') : Settled h key t' :=
  fun c hc htouch => (hs c hc htouch).trans ht

/-- **The catalog event of a file that stays** makes the row of its identity that of the file. -/
theorem shows_settled (hinj : FingerprintInjective env) (hchecks : 0 < polling.checks) (hs : Sits env w) (workers : Workers)
    (hpath : IsPath key) (hkey : HiveKey key dims) (hreadable : Readable key dims file)
    (hlookup : h.final.lookup key = some file) (hsettled : Settled h key w.clock) :
    Shows (workItem env (treeSource watch polling h.treeAt) workers (.catalog (watch.absPath key)) (scripted w [])).2 dims
      (some file.stat.etag) := by
  have hevent : (treeSource watch polling h.treeAt).eventKey (watch.absPath key) = key := eventKey_absPath watch hpath
  have hfile : ∀ t, w.clock ≤ t → (h.treeAt t).lookup key = some file := fun t ht => (hsettled.lookup ht).trans hlookup
  obtain ⟨parsed, summary, hparse, hsummary, hfits⟩ := hreadable
  have hpolled : ∀ t, w.clock ≤ t → (h.treeAt t).lookup (watch.eventKey (watch.absPath key)) = some file := by
    rw [eventKey_absPath watch hpath]
    exact hfile
  have hstable := stable_treeSource hchecks hpolled
  have hthere : ∀ t, w.clock ≤ t → (treeSource watch polling h.treeAt).stat t key = .ok (some file.stat) := by
    intro t ht
    rw [stat_treeSource, hfile t ht]
    rfl
  have hread : ∀ t, w.clock ≤ t →
      (treeSource watch polling h.treeAt).readSummary t key file.stat.size = .ok summary := by
    intro t ht
    rw [readSummary_treeSource (hfile t ht), hparse]
    exact hsummary
  rw [← hevent] at hkey hthere hread hfits
  exact shows_found hinj hs (plain_treeSource h watch polling) hkey hstable hthere hread hfits

/-- The catalog event of a file that is gone for good changes nothing. -/
theorem shows_gone (workers : Workers) (hpath : IsPath key) (hlookup : h.final.lookup key = none)
    (hsettled : Settled h key w.clock) {etag : Option PyStr} (hshows : Shows w dims etag) :
    Shows (workItem env (treeSource watch polling h.treeAt) workers (.catalog (watch.absPath key)) (scripted w [])).2 dims
      etag := by
  refine shows_missing ?_ hshows
  rw [show (treeSource watch polling h.treeAt).eventKey (watch.absPath key) = key from eventKey_absPath watch hpath,
    stat_treeSource, hsettled.lookup (Nat.le_succ _), hlookup]
  rfl

end Items

/-! ### Runs -/

section Runs

variable {env : Env} {h : TreeHistory} {watch : Watch} {polling : Polling} {workers : Workers} {s s₀ s' : WatchState}
  {key : PyStr}
  {dims : Dims}

theorem prefix_concat {α : Type*} {taken queue : List α} {a : α} (htaken : taken <+: queue)
    (hnext : queue[taken.length]? = some a) : taken ++ [a] <+: queue := by
  obtain ⟨rest, rfl⟩ := htaken
  rw [List.getElem?_append_right (le_refl _), Nat.sub_self] at hnext
  cases rest with
  | nil => cases hnext
  | cons b rest =>
      cases Option.some.inj hnext
      exact ⟨rest, by rw [List.append_assoc]; rfl⟩

/-- What has been taken has been put. -/
theorem Live.founded (hl : Live env h watch s) {e : Taken} (he : e ∈ s.taken) : Founded h watch (e.stamp, e.item) :=
  hl.tracked.filed.events _ (hl.fifo.subset (List.mem_map_of_mem he))

theorem Starts.live (hstarts : Starts env h s) (watch : Watch) : Live env h watch s := by
  obtain ⟨hhandler, htaken, hsits, _⟩ := hstarts
  refine ⟨hsits, ?_, fun n c hn => ?_, ?_, fun e he => ?_⟩
  · rw [hhandler]
    exact tracked_idle h watch
  · rw [hhandler] at hn
    exact absurd hn (Nat.not_lt_zero n)
  · rw [htaken]
    exact List.nil_prefix
  · rw [htaken] at he
    cases he

/-- **One step** keeps what holds on the way. -/
theorem WatchStep.live (hinj : FingerprintInjective env) (hstep : WatchStep env h watch polling workers s s')
    (hl : Live env h watch s) : Live env h watch s' := by
  cases hstep with
  | wait =>
      have hclock : s.world.clock ≤ s.world.tickClock.clock := Nat.le_succ _
      exact ⟨⟨hl.sits.seated, hl.sits.sound⟩, hl.tracked, fun n c hn hc => (hl.past n c hn hc).trans hclock, hl.fifo,
        fun e he => ⟨(hl.since e he).1.trans hclock, (hl.since e he).2⟩⟩
  | calls hc hpast hs =>
      obtain ⟨hbegun, hprefix⟩ := log_begins hs
      refine ⟨hl.sits, hl.tracked.begins hc hs, fun n c' hn hc' => ?_, hl.fifo.trans hprefix, hl.since⟩
      rw [hbegun] at hn
      cases Nat.lt_succ_iff_lt_or_eq.mp hn with
      | inl hold => exact hl.past n c' hold hc'
      | inr hnew =>
          rw [hnew, hc] at hc'
          cases hc'
          exact hpast
  | moves hm hs =>
      obtain ⟨hbegun, hprefix⟩ := log_moves hm hs
      refine ⟨hl.sits, hl.tracked.moves hm hs, fun n c hn hc => ?_, hl.fifo.trans hprefix, hl.since⟩
      rw [hbegun] at hn
      exact hl.past n c hn hc
  | works hqueue =>
      rename_i e
      have hmem := List.mem_of_getElem? hqueue
      obtain ⟨key, habout⟩ := (hl.tracked.filed.events e hmem).about
      obtain ⟨hsits, hclock, _⟩ := item_keeps (h := h) hinj hl.sits polling workers habout
      refine ⟨hsits, hl.tracked, fun n c hn hc => (hl.past n c hn hc).trans hclock, ?_, fun e' he' => ?_⟩
      · rw [List.map_append]
        refine prefix_concat hl.fifo ?_
        rw [List.length_map]
        exact hqueue
      · cases List.mem_append.mp he' with
        | inl hold => exact ⟨(hl.since e' hold).1.trans hclock, (hl.since e' hold).2⟩
        | inr hnew =>
            rw [List.mem_singleton.mp hnew]
            exact ⟨hclock, fun n c hn hc => hl.past n c (hn.trans_le (hl.tracked.filed.stamps e hmem)) hc⟩

theorem Live.run (hinj : FingerprintInjective env) (hl : Live env h watch s)
    (hrun : ReflTransGen (WatchStep env h watch polling workers) s s') : Live env h watch s' := by
  induction hrun with
  | refl => exact hl
  | tail _ hstep ih => exact hstep.live hinj ih

theorem Starts.account (hstarts : Starts env h s) (watch : Watch) : Account h watch s := by
  refine ⟨fun dims hwhole _ => hstarts.shows dims hwhole, fun key dims file before e after _ _ _ _ hsplit => ?_,
    fun key dims _ _ _ e he => ?_⟩
  · rw [hstarts.taken] at hsplit
    exact absurd hsplit.symm (List.append_ne_nil_of_right_ne_nil _ (List.cons_ne_nil _ _))
  · rw [hstarts.taken] at he
    cases he

/-- A list with one more element ends with it, or is split where the list was. -/
theorem split_concat {α : Type*} {taken before after : List α} {a e : α} (h : taken ++ [a] = before ++ e :: after) :
    (e = a ∧ after = []) ∨ ∃ rest, after = rest ++ [a] ∧ taken = before ++ e :: rest := by
  rcases List.eq_nil_or_concat' after with rfl | ⟨rest, last, rfl⟩
  · have hlast := congrArg List.getLast? h
    rw [List.getLast?_concat, List.getLast?_concat] at hlast
    exact Or.inl ⟨(Option.some.inj hlast).symm, rfl⟩
  · rw [← List.cons_append, ← List.append_assoc] at h
    obtain ⟨htaken, hlast⟩ := List.append_inj' h rfl
    cases hlast
    exact Or.inr ⟨rest, rfl, htaken⟩

/-- **One step** keeps the account. -/
theorem WatchStep.account (hinj : FingerprintInjective env) (hchecks : 0 < polling.checks)
    (hstep : WatchStep env h watch polling workers s s') (hl : Live env h watch s) (ha : Account h watch s) :
    Account h watch s' := by
  cases hstep with
  | wait => exact ⟨ha.untouched, ha.there, ha.gone⟩
  | calls hc hpast hs => exact ⟨ha.untouched, ha.there, ha.gone⟩
  | moves hm hs => exact ⟨ha.untouched, ha.there, ha.gone⟩
  | works hqueue =>
      rename_i e
      have hmem := List.mem_of_getElem? hqueue
      obtain ⟨key₀, habout⟩ := (hl.tracked.filed.events e hmem).about
      obtain ⟨_, _, hframe⟩ := item_keeps (h := h) hinj hl.sits polling workers habout
      -- an item about another path is about another identity
      have hother : ∀ {key dims}, IsPath key → HiveKey key dims → key ≠ key₀ → parseHiveKey key₀ ≠ some dims := by
        intro key dims hpath hkey hne hparse
        exact hne ((hpath.eq_rebuild hkey).trans (habout.path.eq_rebuild (habout.hiveKey hparse)).symm)
      refine ⟨fun dims hwhole hnone => ?_, fun key dims file before e' after hpath hkey hreadable hlookup hsplit hcatalog
        hsettled hlast => ?_, fun key dims hpath hkey hlookup e' he' hdelete hsettled => ?_⟩
      · exact hframe dims (hnone _ (List.mem_append_right _ List.mem_cons_self) key₀ habout.keyed) _
          (ha.untouched dims hwhole fun e' he' => hnone e' (List.mem_append_left _ he'))
      · have hagain : e.2 = .catalog (watch.absPath key) → Settled h key s.world.clock →
            Shows (workItem env (treeSource watch polling h.treeAt) workers e.2 (scripted s.world [])).2 dims
              (some file.stat.etag) := by
          intro hcatalog hnow
          rw [hcatalog]
          exact shows_settled hinj hchecks hl.sits workers hpath hkey hreadable hlookup hnow
        rcases split_concat hsplit with ⟨rfl, rfl⟩ | ⟨rest, rfl, htaken⟩
        · exact hagain hcatalog hsettled
        · have hmem' : e' ∈ s.taken := by
            rw [htaken]
            exact List.mem_append_right _ List.mem_cons_self
          by_cases hsame : key = key₀
          · rcases habout.item with hitem | hitem
            · exact hagain (by rw [hitem, hsame]) (hsettled.later (hl.since e' hmem').1)
            · exact absurd (by rw [hitem, hsame]) (hlast _ (List.mem_append_right _ List.mem_cons_self))
          · exact hframe dims (hother hpath hkey hsame) _ (ha.there key dims file before e' rest hpath hkey hreadable hlookup
              htaken hcatalog hsettled fun e'' he'' => hlast e'' (List.mem_append_left _ he''))
      · by_cases hsame : key = key₀
        · rcases habout.item with hitem | hitem
          · have hold : e' ∈ s.taken := by
              refine (List.mem_append.mp he').resolve_right fun hnew => ?_
              rw [List.mem_singleton.mp hnew, hitem] at hdelete
              cases hdelete
            rw [hitem, ← hsame]
            exact shows_gone workers hpath hlookup (hsettled.later (hl.since e' hold).1)
              (ha.gone key dims hpath hkey hlookup e' hold hdelete hsettled)
          · rw [hitem, ← hsame]
            have hevent : (treeSource watch polling h.treeAt).eventKey (watch.absPath key) = key :=
              eventKey_absPath watch hpath
            rw [← hevent] at hkey
            exact (shows_removed hl.sits _ workers hkey).1
        · have hold : e' ∈ s.taken := by
            refine (List.mem_append.mp he').resolve_right fun hnew => hsame ?_
            rw [List.mem_singleton.mp hnew] at hdelete
            rcases habout.item with hitem | hitem
            · rw [hitem] at hdelete
              cases hdelete
            · rw [hitem] at hdelete
              exact (absPath_inj habout.path hpath (WorkItem.delete.inj hdelete)).symm
          exact hframe dims (hother hpath hkey hsame) _ (ha.gone key dims hpath hkey hlookup e' hold hdelete hsettled)

/-- **A run.** -/
theorem Starts.run (hinj : FingerprintInjective env) (hchecks : 0 < polling.checks) (hstarts : Starts env h s₀)
    (hrun : ReflTransGen (WatchStep env h watch polling workers) s₀ s) : Live env h watch s ∧ Account h watch s := by
  induction hrun with
  | refl => exact ⟨hstarts.live watch, hstarts.account watch⟩
  | tail _ hstep ih => exact ⟨hstep.live hinj ih.1, hstep.account hinj hchecks ih.1 ih.2⟩

end Runs

/-! ### Every run can come to rest -/

section Completion

variable {env : Env} {h : TreeHistory} {watch : Watch} {polling : Polling} {workers : Workers} {s s' : WatchState}
  {handler handler' : Handler} {c : Callback} {rest : List Action} {i n : ℕ}

/-- Moves that begin no callback. -/
abbrev Works : Handler → Handler → Prop :=
  ReflTransGen fun handler handler' => ∃ m, (∀ c, m ≠ Debounce.Move.begin c) ∧ step handler m = some handler'

theorem begun_of_works (hworks : Works handler handler') : begun handler'.log = begun handler.log := by
  induction hworks with
  | refl => rfl
  | tail _ hstep ih =>
      obtain ⟨m, hm, hs⟩ := hstep
      exact (log_moves hm hs).1.trans ih

/-- They are steps of the event path. -/
theorem run_of_works (env : Env) (h : TreeHistory) (watch : Watch) (polling : Polling) (workers : Workers) (s : WatchState)
    (hworks : Works s.handler handler) :
    ReflTransGen (WatchStep env h watch polling workers) s { s with handler := handler } := by
  induction hworks with
  | refl => exact .refl
  | tail _ hstep ih =>
      obtain ⟨m, hm, hs⟩ := hstep
      exact ih.tail (.moves { s with handler := _ } hm hs)

/-- A callback in progress can be finished. -/
theorem finishes (rest : List Action) : ∀ handler : Handler, handler.current = some (c, rest) → rest ≠ [] →
    ∃ handler', Works handler handler' ∧ handler'.current = none := by
  induction rest with
  | nil => exact fun _ _ hne => absurd rfl hne
  | cons a rest ih =>
      intro handler hcur _
      have hact : step handler .act = some ((handler.perform a).goOn c rest) := by rw [step, hcur]
      have hfirst : Works handler ((handler.perform a).goOn c rest) :=
        .single ⟨.act, fun _ => Debounce.Move.noConfusion, hact⟩
      cases rest with
      | nil => exact ⟨_, hfirst, rfl⟩
      | cons b rest =>
          obtain ⟨handler', hrest, hnone⟩ := ih ((handler.perform a).goOn c (b :: rest)) rfl (List.cons_ne_nil b rest)
          exact ⟨handler', hfirst.trans hrest, hnone⟩

/-- A callback can begin and be finished. -/
theorem begins (hcur : handler.current = none) (c : Callback) : ∃ handler₁ handler',
    step handler (.begin c) = some handler₁ ∧ Works handler₁ handler' ∧ handler'.current = none := by
  have hs : step handler (.begin c) = some (Handler.goOn { handler with log := handler.log ++ [.began c] } c c.body) := by
    simp only [step, hcur]
  cases hbody : c.body with
  | nil =>
      rw [hbody] at hs
      exact ⟨_, _, hs, .refl, rfl⟩
  | cons a rest =>
      rw [hbody] at hs
      obtain ⟨handler', hworks, hnone⟩ := finishes (a :: rest)
        (Handler.goOn { handler with log := handler.log ++ [.began c] } c (a :: rest)) rfl (List.cons_ne_nil a rest)
      exact ⟨_, handler', hs, hworks, hnone⟩

/-- What a timer's own moves leave: the other timers, and what is in progress. -/
structure Fires (i : ℕ) (handler handler' : Handler) : Prop where
  works : Works handler handler'
  current : handler'.current = handler.current
  others : ∀ j ≠ i, handler'.timers[j]? = handler.timers[j]?
  length : handler'.timers.length = handler.timers.length

theorem Fires.trans {handler'' : Handler} (h₁ : Fires i handler handler') (h₂ : Fires i handler' handler'') :
    Fires i handler handler'' :=
  ⟨h₁.works.trans h₂.works, h₂.current.trans h₁.current, fun j hj => (h₂.others j hj).trans (h₁.others j hj),
    h₂.length.trans h₁.length⟩

theorem getElem_enter {path : PyStr} {phase : Debounce.Phase} (htimer : handler.timers[i]? = some ⟨path, phase⟩)
    (next : Debounce.Phase) : (handler.enter i next).timers[i]? = some ⟨path, next⟩ := by
  show (handler.timers.modify i fun t => { t with phase := next })[i]? = _
  rw [List.getElem?_modify_eq, htimer]
  rfl

theorem fires_one {m : Debounce.Move} (next : Debounce.Phase) (hm : ∀ c, m ≠ .begin c)
    (hs : step handler m = some handler') (htimers : handler'.timers = (handler.enter i next).timers)
    (hcur : handler'.current = handler.current) : Fires i handler handler' := by
  refine ⟨.single ⟨m, hm, hs⟩, hcur, fun j hj => ?_, ?_⟩
  · rw [htimers]
    exact List.getElem?_modify_ne _ _ (Ne.symm hj)
  · rw [htimers]
    exact List.length_modify _ _ _

/-- **A timer can fire**, whatever phase it is in. -/
theorem fires (i : ℕ) (handler : Handler) :
    ∃ handler', Fires i handler handler' ∧ ∀ t, handler'.timers[i]? = some t → ¬t.Live := by
  have hput : ∀ (handler : Handler) path, handler.timers[i]? = some ⟨path, .removed⟩ →
      ∃ handler', Fires i handler handler' ∧ ∀ t, handler'.timers[i]? = some t → ¬t.Live := by
    intro handler path htimer
    have hs : step handler (.put i) = some { handler.enter i .done with log := handler.log ++ [.put (.catalog path)] } := by
      rw [step, htimer]
    refine ⟨_, fires_one .done (fun _ => Debounce.Move.noConfusion) hs rfl rfl, fun t ht => ?_⟩
    cases (getElem_enter htimer .done).symm.trans ht
    rintro (h | h | h) <;> cases h
  have hremove : ∀ (handler : Handler) path, handler.timers[i]? = some ⟨path, .started⟩ →
      ∃ handler', Fires i handler handler' ∧ ∀ t, handler'.timers[i]? = some t → ¬t.Live := by
    intro handler path htimer
    have hs : step handler (.remove i) = some { handler.enter i .removed with registered := handler.registered.erase path } := by
      rw [step, htimer]
    have hfirst := fires_one .removed (fun _ => Debounce.Move.noConfusion) hs rfl rfl
    obtain ⟨handler', hfires, hdone⟩ := hput { handler.enter i .removed with registered := handler.registered.erase path }
      path (getElem_enter htimer .removed)
    exact ⟨handler', hfirst.trans hfires, hdone⟩
  have hsame : Fires i handler handler := ⟨.refl, rfl, fun _ _ => rfl, rfl⟩
  cases htimer : handler.timers[i]? with
  | none => exact ⟨handler, hsame, fun t ht => by rw [htimer] at ht; cases ht⟩
  | some t =>
      obtain ⟨path, phase⟩ := t
      have hover : ¬(Timer.mk path phase).Live → ∃ handler', Fires i handler handler' ∧
          ∀ t, handler'.timers[i]? = some t → ¬t.Live :=
        fun hlive => ⟨handler, hsame, fun t ht => by rw [htimer] at ht; cases ht; exact hlive⟩
      cases phase with
      | waiting =>
          have hs : step handler (.start i) = some (handler.enter i .started) := by rw [step, htimer]
          have hfirst := fires_one .started (fun _ => Debounce.Move.noConfusion) hs rfl rfl
          obtain ⟨handler', hfires, hdone⟩ := hremove _ path (getElem_enter htimer .started)
          exact ⟨handler', hfirst.trans hfires, hdone⟩
      | started => exact hremove handler path htimer
      | removed => exact hput handler path htimer
      | cancelled => exact hover (by rintro (h | h | h) <;> cases h)
      | done => exact hover (by rintro (h | h | h) <;> cases h)

/-- **All timers can fire.** -/
theorem drains (n : ℕ) (handler : Handler) : ∃ handler', Works handler handler' ∧ handler'.current = handler.current ∧
    handler'.timers.length = handler.timers.length ∧ ∀ i < n, ∀ t, handler'.timers[i]? = some t → ¬t.Live := by
  induction n with
  | zero => exact ⟨handler, .refl, rfl, rfl, fun i hi => absurd hi (Nat.not_lt_zero i)⟩
  | succ n ih =>
      obtain ⟨handler₁, hworks, hcur, hlen, hdone⟩ := ih
      obtain ⟨handler₂, hfires, hlast⟩ := fires n handler₁
      refine ⟨handler₂, hworks.trans hfires.works, hfires.current.trans hcur, hfires.length.trans hlen, fun i hi t ht => ?_⟩
      by_cases hin : i = n
      · rw [hin] at ht
        exact hlast t ht
      · rw [hfires.others i hin] at ht
        exact hdone i (by omega) t ht

/-- Time can pass. -/
theorem waits (env : Env) (h : TreeHistory) (watch : Watch) (polling : Polling) (workers : Workers) (s : WatchState) (t : ℕ) :
    ∃ w, t ≤ w.clock ∧ ReflTransGen (WatchStep env h watch polling workers) s { s with world := w } := by
  induction t with
  | zero => exact ⟨s.world, Nat.zero_le _, .refl⟩
  | succ t ih =>
      obtain ⟨w, hle, hrun⟩ := ih
      exact ⟨w.tickClock, Nat.succ_le_succ hle, hrun.tail (.wait _)⟩

/-- **The watcher can catch up.** -/
theorem catches_up (env : Env) (h : TreeHistory) (watch : Watch) (polling : Polling) (workers : Workers) (n : ℕ) :
    ∀ s : WatchState, s.handler.current = none → begun s.handler.log + n = h.changes.length →
      ∃ s', ReflTransGen (WatchStep env h watch polling workers) s s' ∧ s'.handler.current = none ∧
        begun s'.handler.log = h.changes.length := by
  induction n with
  | zero => exact fun s hcur hall => ⟨s, .refl, hcur, hall⟩
  | succ n ih =>
      intro s hcur hall
      obtain ⟨c, hc⟩ : ∃ c, h.changes[begun s.handler.log]? = some c := ⟨_, List.getElem?_eq_getElem (by omega)⟩
      obtain ⟨w, hpast, hwait⟩ := waits env h watch polling workers s c.1
      obtain ⟨handler₁, handler', hs, hworks, hnone⟩ := begins hcur (c.2.callback watch)
      have hcalls : WatchStep env h watch polling workers { s with world := w } { s with world := w, handler := handler₁ } :=
        .calls { s with world := w } hc hpast hs
      have hworked := run_of_works env h watch polling workers { s with world := w, handler := handler₁ } hworks
      have hbegun : begun handler'.log = begun s.handler.log + 1 := (begun_of_works hworks).trans (log_begins hs).1
      have hleft : begun handler'.log + n = h.changes.length := by
        rw [hbegun]
        omega
      obtain ⟨s', hrun, hrest⟩ := ih { s with world := w, handler := handler' } hnone hleft
      exact ⟨s', ((hwait.tail hcalls).trans hworked).trans hrun, hrest⟩

/-- **The worker can empty the queue.** -/
theorem empties (env : Env) (h : TreeHistory) (watch : Watch) (polling : Polling) (workers : Workers) (n : ℕ) :
    ∀ s : WatchState, s.taken.length + n = (stamped s.handler.log).length →
      ∃ s', ReflTransGen (WatchStep env h watch polling workers) s s' ∧ s'.handler = s.handler ∧
        s'.taken.length = (stamped s.handler.log).length := by
  induction n with
  | zero => exact fun s hall => ⟨s, .refl, rfl, hall⟩
  | succ n ih =>
      intro s hall
      obtain ⟨e, hqueue⟩ : ∃ e, (stamped s.handler.log)[s.taken.length]? = some e :=
        ⟨_, List.getElem?_eq_getElem (by omega)⟩
      have hlen : (s.taken ++ [(⟨s.world.clock, e.1, e.2⟩ : Taken)]).length + n = (stamped s.handler.log).length := by
        rw [List.length_append]
        exact (Nat.add_right_comm _ _ _).trans hall
      obtain ⟨s', hrun, hhandler, htaken⟩ := ih ⟨s.handler, _, _⟩ hlen
      exact ⟨s', .head (.works s hqueue) hrun, hhandler, htaken⟩

/-- **Every run can come to rest.** -/
theorem Live.rests (hinj : FingerprintInjective env) (hl : Live env h watch s) (polling : Polling) (workers : Workers) :
    ∃ s', ReflTransGen (WatchStep env h watch polling workers) s s' ∧ AtRest h s' := by
  have hfinish : ∃ handler', Works s.handler handler' ∧ handler'.current = none := by
    cases hcur : s.handler.current with
    | none => exact ⟨s.handler, .refl, hcur⟩
    | some progress =>
        obtain ⟨c, rest⟩ := progress
        exact finishes rest s.handler hcur (hl.tracked.inv.current c rest hcur).1
  obtain ⟨handler₁, hworks₁, hcur₁⟩ := hfinish
  have hrun₁ := run_of_works env h watch polling workers s hworks₁
  have hbegun : begun handler₁.log + (h.changes.length - begun s.handler.log) = h.changes.length := by
    rw [begun_of_works hworks₁]
    exact Nat.add_sub_of_le hl.tracked.owes.bound
  obtain ⟨s₂, hrun₂, hcur₂, hcalled⟩ := catches_up env h watch polling workers _ { s with handler := handler₁ } hcur₁ hbegun
  obtain ⟨handler₃, hworks₃, hcur₃, hlen₃, hdone⟩ := drains s₂.handler.timers.length s₂.handler
  have hrun₃ := run_of_works env h watch polling workers s₂ hworks₃
  have htaken : s₂.taken.length + ((stamped handler₃.log).length - s₂.taken.length) = (stamped handler₃.log).length := by
    have hl₃ := hl.run hinj ((hrun₁.trans hrun₂).trans hrun₃)
    have hle := hl₃.fifo.length_le
    rw [List.length_map] at hle
    exact Nat.add_sub_of_le hle
  obtain ⟨s₄, hrun₄, hhandler, hall⟩ := empties env h watch polling workers _ { s₂ with handler := handler₃ } htaken
  refine ⟨s₄, ((hrun₁.trans hrun₂).trans hrun₃).trans hrun₄, ⟨fun t ht => ?_, ?_⟩, ?_, ?_⟩
  · rw [hhandler] at ht
    obtain ⟨i, hi, hget⟩ := List.getElem_of_mem ht
    exact hdone i (by rw [← hlen₃]; exact hi) t (by rw [← hget]; exact List.getElem?_eq_getElem hi)
  · rw [hhandler]
    exact hcur₃.trans hcur₂
  · rw [hhandler]
    exact (begun_of_works hworks₃).trans hcalled
  · rw [hhandler]
    exact hall

end Completion

/-! ### At rest -/

section Rest

variable {env : Env} {h : TreeHistory} {watch : Watch} {polling : Polling} {workers : Workers} {s s₀ : WatchState} {key : PyStr}
  {dims : Dims} {file : LocalFile} {before after : List (ℕ × Change)} {c c' : ℕ × Change} {m : ℕ}

/-- The last element of a kind. -/
theorem exists_last_of {α : Type*} (p : α → Bool) {l : List α} {a : α} (ha : a ∈ l) (hp : p a = true) :
    ∃ before last after, l = before ++ last :: after ∧ p last = true ∧ ∀ b ∈ after, p b = false := by
  induction l using List.reverseRecOn with
  | nil => cases ha
  | append_singleton l b ih =>
      cases hb : p b with
      | true => exact ⟨l, b, [], rfl, hb, fun c hc => by cases hc⟩
      | false =>
          have hold : a ∈ l := by
            refine (List.mem_append.mp ha).resolve_right fun hnew => ?_
            rw [List.mem_singleton.mp hnew, hb] at hp
            cases hp
          obtain ⟨before, last, after, rfl, hlast, hafter⟩ := ih hold
          refine ⟨before, last, after ++ [b], List.append_assoc _ _ _, hlast, fun c hc => ?_⟩
          cases List.mem_append.mp hc with
          | inl hmem => exact hafter c hmem
          | inr hnew => rw [List.mem_singleton.mp hnew, hb]

theorem at_split (hsplit : h.changes = before ++ c :: after) : h.changes[before.length]? = some c := by
  rw [hsplit, List.getElem?_append_right (le_refl _), Nat.sub_self]
  rfl

theorem after_split (hsplit : h.changes = before ++ c :: after) (hm : before.length < m) (hc : h.changes[m]? = some c') :
    c' ∈ after := by
  rw [hsplit, List.getElem?_append_right hm.le] at hc
  obtain ⟨k, hk⟩ := Nat.exists_eq_add_of_lt hm
  rw [show m - before.length = k + 1 by omega, List.getElem?_cons_succ] at hc
  exact List.mem_of_getElem? hc

/-- An item that was put after the last change of its key began is taken when the key is settled. -/
theorem Live.settled (hl : Live env h watch s) (hsplit : h.changes = before ++ c :: after)
    (hlast : ∀ c' ∈ after, c'.2.touches key = false) {e : Taken} (he : e ∈ s.taken) (hstamp : before.length < e.stamp) :
    Settled h key e.time := by
  intro c' hc' htouch
  obtain ⟨m, hm⟩ := List.mem_iff_getElem?.mp hc'
  refine (hl.since e he).2 m c' (lt_of_le_of_lt (Nat.le_of_not_lt fun hlater => ?_) hstamp) hm
  rw [hlast c' (after_split hsplit hlater hm)] at htouch
  cases htouch

/-- At rest everything put has been taken. -/
theorem AtRest.exists_taken (hrest : AtRest h s) (hl : Live env h watch s) {e : ℕ × WorkItem}
    (he : e ∈ stamped s.handler.log) : ∃ e' ∈ s.taken, (e'.stamp, e'.item) = e := by
  have hall := hl.fifo.eq_of_length (by rw [List.length_map, hrest.taken])
  rw [← hall] at he
  obtain ⟨e', he', heq⟩ := List.mem_map.mp he
  exact ⟨e', he', heq⟩

/-- **A file that arrived last** has been cataloged since, and not been deleted after that. -/
theorem AtRest.arrival (hrest : AtRest h s) (hl : Live env h watch s) (hcat : isCatalogable key = true)
    (hsplit : h.changes = before ++ c :: after) (heffect : c.2.effect key = some (some file))
    (hlast : ∀ c' ∈ after, c'.2.touches key = false) :
    ∃ first e rest, s.taken = first ++ e :: rest ∧ e.item = .catalog (watch.absPath key) ∧ Settled h key e.time ∧
      ∀ e' ∈ rest, e'.item ≠ .delete (watch.absPath key) := by
  have hc : c ∈ h.changes := by
    rw [hsplit]
    exact List.mem_append_right _ List.mem_cons_self
  have hproper := h.proper c hc
  have hpath : IsPath key := hproper.paths key (by rw [Change.touches, heffect]; rfl)
  have hcatPath : isCatalogable (watch.absPath key) = true := by
    rw [isCatalogable_absPath watch hpath.head]
    exact hcat
  have hbegun : before.length < begun s.handler.log := by
    rw [hrest.called]
    exact (List.getElem?_eq_some_iff.mp (at_split hsplit)).1
  have howed : owed (watch.absPath key) s.handler.log = false := by
    cases howed : owed (watch.absPath key) s.handler.log with
    | false => rfl
    | true =>
        obtain ⟨t, ht, _, hlive⟩ := hl.tracked.inv.live _ hcatPath howed
        exact absurd hlive (hrest.handler.1 t ht)
  have hothers : ∀ m c', before.length < m → m < begun s.handler.log → h.changes[m]? = some c' →
      (c'.2.callback watch).touches (watch.absPath key) = false := by
    intro m c' hm _ hc'
    have hother := hlast c' (after_split hsplit hm hc')
    rw [← Bool.not_eq_true] at hother ⊢
    rw [touches_iff (h.proper c' (List.mem_of_getElem? hc')) hpath]
    exact hother
  have hput : ∃ e ∈ stamped s.handler.log, before.length < e.1 ∧ e.2 = .catalog (watch.absPath key) := by
    rcases hl.tracked.owes.arrived _ before.length c hcatPath (at_split hsplit) hbegun
      ((arrives_iff hproper hpath).mpr ⟨file, heffect⟩) hothers with hin | howes | hput
    · exact absurd hrest.handler.2 hin.2
    · rw [howed] at howes
      cases howes
    · exact hput
  obtain ⟨_, hmem, hstamp, hitem⟩ := hput
  obtain ⟨e, he, rfl⟩ := hrest.exists_taken hl hmem
  obtain ⟨first, rest, htaken⟩ := List.append_of_mem he
  refine ⟨first, e, rest, htaken, hitem, hl.settled hsplit hlast he hstamp, fun e' he' hdelete => ?_⟩
  have hmem' : e' ∈ s.taken := by
    rw [htaken]
    exact List.mem_append_right _ (List.mem_cons_of_mem _ he')
  -- the deletion was put after the event, so it is of this very change, which is no departure
  have hsorted : e.stamp ≤ e'.stamp := by
    have hpairwise := hl.tracked.filed.sorted.sublist hl.fifo.sublist
    rw [htaken, List.map_append, List.map_cons] at hpairwise
    exact List.rel_of_pairwise_cons (List.pairwise_append.mp hpairwise).2.1 (List.mem_map_of_mem he')
  obtain ⟨path, hknown, hfounded⟩ := hl.founded hmem'
  rcases hfounded with hcatalog | ⟨hdel, n, c', hn, hc', hleaves⟩
  · rw [hdelete] at hcatalog
    cases hcatalog
  · rw [hdelete] at hdel
    rw [← WorkItem.delete.inj hdel] at hleaves
    rw [leaves_iff (h.proper c' (List.mem_of_getElem? hc')) hpath] at hleaves
    have htouch : c'.2.touches key = true := by
      rw [Change.touches, hleaves]
      rfl
    have hn' : n = before.length := by
      refine le_antisymm (Nat.le_of_not_lt fun hlater => ?_) ?_
      · rw [hlast c' (after_split hsplit hlater hc')] at htouch
        cases htouch
      · have hstamps : before.length < n + 1 := by
          rw [← hn]
          exact hstamp.trans_le hsorted
        exact Nat.le_of_lt_succ hstamps
    rw [hn', at_split hsplit] at hc'
    cases hc'
    rw [heffect] at hleaves
    cases hleaves

/-- **A file that went last** has been deleted since. -/
theorem AtRest.departure (hrest : AtRest h s) (hl : Live env h watch s) (hcat : isCatalogable key = true)
    (hsplit : h.changes = before ++ c :: after) (heffect : c.2.effect key = some none)
    (hlast : ∀ c' ∈ after, c'.2.touches key = false) :
    ∃ e ∈ s.taken, e.item = .delete (watch.absPath key) ∧ Settled h key e.time := by
  have hc : c ∈ h.changes := by
    rw [hsplit]
    exact List.mem_append_right _ List.mem_cons_self
  have hproper := h.proper c hc
  have hpath : IsPath key := hproper.paths key (by rw [Change.touches, heffect]; rfl)
  have hcatPath : isCatalogable (watch.absPath key) = true := by
    rw [isCatalogable_absPath watch hpath.head]
    exact hcat
  have hbegun : before.length < begun s.handler.log := by
    rw [hrest.called]
    exact (List.getElem?_eq_some_iff.mp (at_split hsplit)).1
  rcases hl.tracked.owes.left _ before.length c hcatPath (at_split hsplit) hbegun
    ((leaves_iff hproper hpath).mpr heffect) with ⟨_, _, _, hcurrent, _⟩ | ⟨_, hmem, hstamp, hitem⟩
  · rw [hrest.handler.2] at hcurrent
    cases hcurrent
  · obtain ⟨e, he, rfl⟩ := hrest.exists_taken hl hmem
    exact ⟨e, he, hitem, hl.settled hsplit hlast he hstamp⟩

/-- An identity whose path no change is about shows what it started with. -/
theorem Account.unchanged (ha : Account h watch s) (hl : Live env h watch s) (hwhole : WholeFile h.start dims)
    (hnone : parseHiveKey (rebuildHiveKey dims) = some dims → isCatalogable (rebuildHiveKey dims) = true →
      ∀ c ∈ h.changes, c.2.touches (rebuildHiveKey dims) = false) :
    Shows s.world dims ((fileOf h.start dims).map fun file => file.stat.etag) := by
  refine ha.untouched dims hwhole fun e he key hkeyOf hparse => ?_
  obtain ⟨path, ⟨key₀, c, hc, htouch, hcat, rfl⟩, hitem⟩ := hl.founded he
  have hproper := h.proper c hc
  have hpath := hproper.paths key₀ htouch
  have hsame : key = key₀ := by
    rw [← eventKey_absPath watch hpath]
    rcases hitem with hitem | ⟨hitem, _⟩
    · rw [show e.item = _ from hitem] at hkeyOf
      exact (Option.some.inj hkeyOf).symm
    · rw [show e.item = _ from hitem] at hkeyOf
      exact (Option.some.inj hkeyOf).symm
  rw [hsame] at hparse
  have hkey := hiveKey_of_parses hpath hcat (hproper.encodable key₀ htouch hcat) hparse
  rw [hpath.eq_rebuild hkey] at htouch hcat hparse
  rw [hnone hparse hcat c hc] at htouch
  cases htouch

/-- At rest the rows are those of the files. -/
theorem AtRest.mirrors (hrest : AtRest h s) (hl : Live env h watch s) (ha : Account h watch s) :
    MirrorsTree s.world.conn.committed h.final := by
  intro dims hwhole
  suffices hshows : Shows s.world dims ((fileOf h.final dims).map fun file => file.stat.etag) from hshows.1
  by_cases hcond : parseHiveKey (rebuildHiveKey dims) = some dims ∧ isCatalogable (rebuildHiveKey dims) = true
  · have hfile : ∀ tree, fileOf tree dims = tree.lookup (rebuildHiveKey dims) := fun tree => by rw [fileOf, if_pos hcond]
    by_cases htouched : ∃ c ∈ h.changes, c.2.touches (rebuildHiveKey dims) = true
    · obtain ⟨c₀, hc₀, htouch₀⟩ := htouched
      obtain ⟨before, c, after, hsplit, htouch, hlast⟩ : ∃ before c after, h.changes = before ++ c :: after ∧
          c.2.touches (rebuildHiveKey dims) = true ∧ ∀ c' ∈ after, c'.2.touches (rebuildHiveKey dims) = false :=
        exists_last_of (fun c => c.2.touches (rebuildHiveKey dims)) hc₀ htouch₀
      have hc : c ∈ h.changes := by
        rw [hsplit]
        exact List.mem_append_right _ List.mem_cons_self
      have hproper := h.proper c hc
      have hpath := hproper.paths _ htouch
      have hkey := hiveKey_of_parses hpath hcond.2 (hproper.encodable _ htouch hcond.2) hcond.1
      obtain ⟨found, heffect⟩ := Option.isSome_iff_exists.mp htouch
      have hlookup := lookup_last hsplit heffect hlast
      cases found with
      | none =>
          obtain ⟨e, he, hitem, hsettled⟩ := hrest.departure hl hcond.2 hsplit heffect hlast
          rw [hfile, hlookup]
          exact ha.gone _ dims hpath hkey hlookup e he hitem hsettled
      | some file =>
          obtain ⟨first, e, rest, htaken, hitem, hsettled, hnone⟩ := hrest.arrival hl hcond.2 hsplit heffect hlast
          have hreadable := hwhole file (by rw [hfile, hlookup])
          rw [hfile, hlookup]
          exact ha.there _ dims file first e rest hpath hkey hreadable hlookup htaken hitem hsettled hnone
    · have hnone : ∀ c ∈ h.changes, c.2.touches (rebuildHiveKey dims) = false := fun c hc =>
        Bool.eq_false_iff.mpr fun htouch => htouched ⟨c, hc, htouch⟩
      have hsame : fileOf h.final dims = fileOf h.start dims := by rw [hfile, hfile, lookup_untouched hnone]
      rw [WholeFile, hsame] at hwhole
      rw [hsame]
      exact ha.unchanged hl hwhole fun _ _ => hnone
  · have hfile : ∀ tree, fileOf tree dims = none := fun tree => by rw [fileOf, if_neg hcond]
    have hwhole' : WholeFile h.start dims := fun file h => by rw [hfile] at h; cases h
    have hshows := ha.unchanged hl hwhole' fun hparses hcat => absurd ⟨hparses, hcat⟩ hcond
    rw [hfile] at hshows ⊢
    exact hshows

/-- **The event path converges.**  When every change of the tree has been called back for and timers, callbacks and queue are
at rest, an identity has a row in the catalog exactly if there is a file at its path in the end, with the etag of that file,
provided the file is whole by then; and whatever has happened so far, a run can come to rest. -/
theorem mirrors_at_rest (hinj : FingerprintInjective env) (hchecks : 0 < polling.checks) (hstarts : Starts env h s₀)
    (hrun : ReflTransGen (WatchStep env h watch polling workers) s₀ s) :
    (AtRest h s → MirrorsTree s.world.conn.committed h.final) ∧
      ∃ s', ReflTransGen (WatchStep env h watch polling workers) s s' ∧ AtRest h s' ∧
        MirrorsTree s'.world.conn.committed h.final := by
  obtain ⟨hl, ha⟩ := hstarts.run hinj hchecks hrun
  obtain ⟨s', hrun', hrest⟩ := hl.rests hinj polling workers
  obtain ⟨hl', ha'⟩ := hstarts.run hinj hchecks (hrun.trans hrun')
  exact ⟨fun hrest => hrest.mirrors hl ha, s', hrun', hrest, hrest.mirrors hl' ha'⟩

end Rest

/-! ### An upload that is renamed -/

/-- The recording while it is written, and when it is done, and the name under which it is uploaded. -/
def partFile : LocalFile := ⟨40, 4, .error (.other (py "EndOfFile") []), .error (.other (py "EndOfFile") [])⟩
def sampleFile : LocalFile := ⟨100, 5, .ok (some twoChannelSummary), .ok (some sampleKey)⟩
def partKey : PyStr := py "upload.mcap.part"

def uploads : ℕ × Change := (0, .created partKey partFile)
def renames : ℕ × Change := (1, .moved partKey sampleKey sampleFile)

theorem isPath_sampleKey : IsPath sampleKey :=
  ⟨[py "customer=acme", py "customer_site=berlin", py "robot=r1", py "source=bag", py "date=2026-05-19", py "a.mcap"],
    List.cons_ne_nil _ _, by
      simp only [List.forall_mem_cons]
      exact ⟨⟨by decide, by decide, by decide, by decide⟩, ⟨by decide, by decide, by decide, by decide⟩,
        ⟨by decide, by decide, by decide, by decide⟩, ⟨by decide, by decide, by decide, by decide⟩,
        ⟨by decide, by decide, by decide, by decide⟩, ⟨by decide, by decide, by decide, by decide⟩,
        fun _ hname => absurd hname List.not_mem_nil⟩, by decide +kernel⟩

theorem isPath_partKey : IsPath partKey :=
  ⟨[partKey], List.cons_ne_nil _ _, fun name hname => by
    rw [List.mem_singleton.mp hname]
    exact ⟨by decide, by decide, by decide, by decide⟩, rfl⟩

theorem readable_sampleFile : Readable sampleKey sampleDims sampleFile := by
  have hstored : (summaryFromStream (some twoChannelSummary)).toOption.map
      (fun summary => (transactionError true ⟨sampleDims, sampleKey, sampleFile.stat, summary⟩).isNone) = some true := by
    decide +kernel
  obtain ⟨summary, hsome, hnone⟩ := Option.map_eq_some_iff.mp hstored
  refine ⟨some twoChannelSummary, summary, rfl, ?_, Option.isNone_iff_eq_none.mp hnone⟩
  cases hsummary : summaryFromStream (some twoChannelSummary) with
  | ok summary' =>
      rw [hsummary] at hsome
      rw [show summary' = summary from Option.some.inj hsome]
  | error e =>
      rw [hsummary] at hsome
      cases hsome

theorem eq_of_touches {key : PyStr} :
    (uploads.2.touches key = true → partKey = key) ∧ (renames.2.touches key = true → sampleKey = key ∨ partKey = key) := by
  constructor
  · intro h
    by_contra hne
    rw [Change.touches, uploads, Change.effect, if_neg hne] at h
    cases h
  · intro h
    by_contra hne
    rw [not_or] at hne
    rw [Change.touches, renames, Change.effect, if_neg hne.1, if_neg hne.2] at h
    cases h

theorem proper_uploads : uploads.2.Proper where
  paths key h := by
    rw [← eq_of_touches.1 h]
    exact isPath_partKey
  encodable key h _ := by
    rw [← eq_of_touches.1 h]
    decide
  files key file h := by
    have hkey := eq_of_touches.1 (show uploads.2.touches key = true by rw [Change.touches, h]; rfl)
    rw [uploads, Change.effect, if_pos hkey] at h
    cases h
    exact fun k hk => by cases hk
  apart _ _ _ h := by cases h

theorem proper_renames : renames.2.Proper where
  paths key h := by
    rcases eq_of_touches.2 h with hkey | hkey
    · rw [← hkey]
      exact isPath_sampleKey
    · rw [← hkey]
      exact isPath_partKey
  encodable key h _ := by
    rcases eq_of_touches.2 h with hkey | hkey
    · rw [← hkey]
      exact hiveKey_sample.encodable
    · rw [← hkey]
      decide
  files key file h := by
    by_cases hkey : sampleKey = key
    · rw [renames, Change.effect, if_pos hkey] at h
      cases h
      rw [← hkey]
      intro k hk
      cases hk
      rfl
    · rw [renames, Change.effect, if_neg hkey] at h
      split at h <;> cases h
  apart src dst file h := by
    cases h
    decide

/-- A recording is uploaded under another name and renamed. -/
def uploaded : TreeHistory where
  start := ∅
  changes := [uploads, renames]
  ordered := by decide
  proper := by
    intro c hc
    rcases List.mem_cons.mp hc with rfl | hc
    · exact proper_uploads
    · rw [List.mem_singleton.mp hc]
      exact proper_renames
  truthful key file h := by cases h

def sampleWatch : Watch := ⟨py "/srv", py "recordings", id, PosixPath.walk (cp '/') (py "recordings"), rfl, reports_walk _⟩
def samplePolling : Polling := ⟨3, fun t i => t + i, fun t i => Nat.le_add_right t i⟩

theorem starts_empty (h : TreeHistory) (hempty : h.start = ∅) : Starts oneTopicEnv h ⟨Handler.idle, opened Db.empty 0, []⟩ where
  handler := rfl
  taken := rfl
  sits := (live_initial oneTopicEnv putBack 0).sits
  shows dims _ := by
    have hnone : fileOf h.start dims = none := by
      rw [fileOf, hempty]
      split <;> rfl
    rw [hnone]
    exact shows_empty 0 dims

/-- The builder starts with an empty catalog and comes to rest with a row of the recording. -/
theorem mirrors_at_rest_uploaded : ∃ s, ReflTransGen (WatchStep oneTopicEnv uploaded sampleWatch samplePolling .one)
    ⟨Handler.idle, opened Db.empty 0, []⟩ s ∧ AtRest uploaded s ∧
      EventPath.etagOf s.world.conn.committed sampleDims = some sampleFile.stat.etag := by
  have hrefl : ReflTransGen (WatchStep oneTopicEnv uploaded sampleWatch samplePolling .one)
      ⟨Handler.idle, opened Db.empty 0, []⟩ ⟨Handler.idle, opened Db.empty 0, []⟩ := .refl
  obtain ⟨_, s, hrun, hrest, hmirrors⟩ :=
    mirrors_at_rest fingerprintInjective_oneTopicEnv (by decide) (starts_empty uploaded rfl) hrefl
  have hkey := isPath_sampleKey.eq_rebuild hiveKey_sample
  have hfile : fileOf uploaded.final sampleDims = some sampleFile := by
    have hcond : parseHiveKey (rebuildHiveKey sampleDims) = some sampleDims ∧
        isCatalogable (rebuildHiveKey sampleDims) = true := by
      rw [← hkey]
      exact ⟨hiveKey_sample.parses, by decide +kernel⟩
    rw [fileOf, if_pos hcond, ← hkey]
    rfl
  have hwhole : WholeFile uploaded.final sampleDims := by
    intro file hfile'
    rw [hfile] at hfile'
    cases hfile'
    rw [← hkey]
    exact readable_sampleFile
  refine ⟨s, hrun, hrest, ?_⟩
  rw [hmirrors sampleDims hwhole, hfile]
  rfl

end McapCatalog.WatchPath
