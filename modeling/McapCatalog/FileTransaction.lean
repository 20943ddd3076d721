import McapCatalog.Channels

/-!
# The per-file transaction

What `_write_file_row` does, as a relation between the database before and after.

* `TopicsInv`, `TopicsGrow` — the invariant of the four topic tables, and how they may change: rows are added,
  and the members of a set that exists stay as they are;
* `Encodes` — a `files` row and its topic set hold the merged channels of the summary it was written from;
* `transactionError` — which exception the transaction raises, as a function of what it was given;
* `Wrote` — the effect of a transaction that commits;
* `fileTransaction_error`, `fileTransaction_wrote` — **the transaction** raises exactly that exception, or
  establishes `Wrote`.
-/

namespace McapCatalog.Builder

open McapCatalog.PyText McapCatalog.PyError McapCatalog.KeyParse McapCatalog.McapSummary
open McapCatalog.Storage McapCatalog.Varint McapCatalog.Tables McapCatalog.RowidTable
open McapCatalog.KeyedRows McapCatalog.Connection McapCatalog.CatalogDb
open McapCatalog.SurvivingState McapCatalog.SurvivingState.Comp

/-! ### The topic tables -/

/-- The invariant of the topic tables. -/
structure TopicsInv (env : Env) (db : Db) : Prop where
  topicBound : Lookup.topic.Bound db
  schemaBound : Lookup.schema.Bound db
  memberRefs : ∀ s t c, db.topicSetMembers.lookup (s, t) = some c →
    (db.topicSets.get s).isSome ∧ (db.topicNames.get t).isSome ∧ (db.schemas.get c).isSome
  fingerprints : ∀ r ∈ db.topicSets.rows, r.key = computeSetFingerprint env (db.selectMembers r.id)

/-- How the topic tables may change. -/
structure TopicsGrow (db db' : Db) : Prop where
  topicNames : db.topicNames.Extends db'.topicNames
  schemas : db.schemas.Extends db'.schemas
  topicSets : db.topicSets.Extends db'.topicSets
  members : ∀ s, (db.topicSets.get s).isSome → db'.selectMembers s = db.selectMembers s

theorem TopicsGrow.refl (db : Db) : TopicsGrow db db :=
  ⟨Table.Extends.refl _, Table.Extends.refl _, Table.Extends.refl _, fun _ _ => rfl⟩

theorem isSome_get_of_extends {κ ρ : Type} {t t' : Table κ ρ} (h : t.Extends t') {i : ℕ}
    (hi : (t.get i).isSome) : (t'.get i).isSome := by
  obtain ⟨r, hr⟩ := Option.isSome_iff_exists.mp hi
  rw [h.get hr]
  rfl

theorem TopicsGrow.trans {a b c : Db} (h : TopicsGrow a b) (h' : TopicsGrow b c) : TopicsGrow a c where
  topicNames := h.topicNames.trans h'.topicNames
  schemas := h.schemas.trans h'.schemas
  topicSets := h.topicSets.trans h'.topicSets
  members s hs := (h'.members s (isSome_get_of_extends h.topicSets hs)).trans (h.members s hs)

/-! ### The topic resolvers on exact caches -/

theorem deriveTags_eq_nil (summary : FileSummary) : deriveTags summary = [] := rfl

@[simp] theorem onTopics_conn (w : World) (db : Db) :
    (onTopics w db).conn = { w.conn with working := db } := rfl

theorem onTopics_quiet {w : World} (h : w.Quiet) (db : Db) : (onTopics w db).Quiet := h

section Loop

variable {w : World}

theorem resolveTopic_onTopics (hq : w.Quiet) (db : Db) {name : PyStr}
    (hb : bindError [.text name] = none) :
    resolveTopic name (onTopics w db) =
      (.ok (Lookup.topic.newId name db), onTopics w (Lookup.topic.resolved name db)) :=
  resolveLookup_ok (L := .topic) (w := onTopics w db) hq rfl hb (Or.inr rfl)

theorem resolveSchema_onTopics (hq : w.Quiet) (db : Db) {name encoding : PyStr}
    (hb : bindError [.text name, .text encoding] = none) :
    resolveSchema name encoding (onTopics w db) =
      (.ok (Lookup.schema.newId (name, encoding) db),
        onTopics w (Lookup.schema.resolved (name, encoding) db)) :=
  resolveLookup_ok (L := .schema) (w := onTopics w db) hq rfl hb (Or.inr rfl)

/-- What the names of one channel raise when they are bound. -/
def channelError (ch : ChannelInfo) : Option PyErr :=
  bindError [.text ch.topic, .text ch.schemaName, .text ch.schemaEncoding]

theorem channelError_of_topic {ch : ChannelInfo} {e : PyErr} (h : bindError [.text ch.topic] = some e) :
    channelError ch = some e := by
  rw [bindError_cons, bindError_nil, Option.or_none] at h
  rw [channelError, bindError_cons, h, Option.some_or]

theorem channelError_of_schema {ch : ChannelInfo} (h : bindError [.text ch.topic] = none) :
    channelError ch = bindError [.text ch.schemaName, .text ch.schemaEncoding] := by
  rw [bindError_cons, bindError_nil, Option.or_none] at h
  rw [channelError, bindError_cons, h, Option.none_or]

/-- The stored names bind. -/
def NamesBound (db : Db) : Prop := Lookup.topic.Bound db ∧ Lookup.schema.Bound db

theorem bound_resolved {κ : Type} [DecidableEq κ] {L : Lookup κ} {key : κ} {db : Db} (h : L.Bound db)
    (hb : bindError (L.params key) = none) : L.Bound (L.resolved key db) := by
  intro r hr
  rw [L.table_resolved] at hr
  unfold Table.insertOrIgnore at hr
  split at hr
  · rcases (Table.mem_insert _).mp hr with hr | rfl
    · exact h r hr
    · exact hb
  · exact h r hr

/-- **One channel.** -/
theorem addChannel_onTopics (hq : w.Quiet) {db : Db} (hbound : NamesBound db) (ch : ChannelInfo)
    {b : List (ℕ × (ℕ × ℕ))} {m : List (PyStr × ((PyStr × PyStr) × ℕ))}
    (hm : List.Forall₂ (Named db.topicNames db.schemas) b m) :
    match channelError ch with
    | some e => ∃ db', addChannel b ch (onTopics w db) = (.error e, onTopics w db')
    | none => ∃ tn sc b', addChannel b ch (onTopics w db) =
          (.ok b', onTopics w { db with topicNames := tn, schemas := sc }) ∧
        db.topicNames.Extends tn ∧ db.schemas.Extends sc ∧
        NamesBound { db with topicNames := tn, schemas := sc } ∧
        List.Forall₂ (Named tn sc) b'
          (tally ch.topic (ch.schemaName, ch.schemaEncoding) ch.messageCount m) := by
  rcases htopic : bindError [.text ch.topic] with _ | e
  · have h1 := resolveTopic_onTopics hq db htopic
    have hbound1 : NamesBound (Lookup.topic.resolved ch.topic db) :=
      ⟨bound_resolved hbound.1 htopic, hbound.2⟩
    rw [channelError_of_schema htopic]
    rcases hschema : bindError [.text ch.schemaName, .text ch.schemaEncoding] with _ | e
    · have h2 := resolveSchema_onTopics hq (Lookup.topic.resolved ch.topic db) hschema
      have hext1 := Lookup.topic.extends_resolved ch.topic db
      have hext2 := Lookup.schema.extends_resolved (ch.schemaName, ch.schemaEncoding)
        (Lookup.topic.resolved ch.topic db)
      refine ⟨_, _, _, ?_, hext1, hext2, ⟨hbound1.1, bound_resolved hbound1.2 hschema⟩,
        forall₂_tally (hm.imp fun _ _ h => h.mono hext1 hext2) (Lookup.topic.idOf_resolved ch.topic db)
          (Lookup.schema.idOf_resolved (ch.schemaName, ch.schemaEncoding)
            (Lookup.topic.resolved ch.topic db))⟩
      rw [addChannel, bind_of_ok h1, bind_of_ok h2]
      rfl
    · have h2 : resolveSchema ch.schemaName ch.schemaEncoding
          (onTopics w (Lookup.topic.resolved ch.topic db)) =
            (.error e, onTopics w (Lookup.topic.resolved ch.topic db)) :=
        resolveLookup_unbound (L := .schema) (w := onTopics w (Lookup.topic.resolved ch.topic db)) hq rfl
          hbound1.2 hschema
      exact ⟨_, by rw [addChannel, bind_of_ok h1]; exact bind_of_error h2⟩
  · have h1 : resolveTopic ch.topic (onTopics w db) = (.error e, onTopics w db) :=
      resolveLookup_unbound (L := .topic) (w := onTopics w db) hq rfl hbound.1 htopic
    rw [channelError_of_topic htopic]
    exact ⟨_, by rw [addChannel]; exact bind_of_error h1⟩

/-- What the names of a recording's channels raise, the first channel first. -/
def channelsError (channels : List ChannelInfo) : Option PyErr := channels.findSome? channelError

/-- **The channel loop**, from a dictionary that already stands for `m`. -/
theorem foldEach_addChannel (hq : w.Quiet) (channels : List ChannelInfo) {db : Db}
    (hbound : NamesBound db) {b : List (ℕ × (ℕ × ℕ))} {m : List (PyStr × ((PyStr × PyStr) × ℕ))}
    (hm : List.Forall₂ (Named db.topicNames db.schemas) b m) :
    match channelsError channels with
    | some e => ∃ db', foldEach addChannel b channels (onTopics w db) = (.error e, onTopics w db')
    | none => ∃ tn sc b', foldEach addChannel b channels (onTopics w db) =
          (.ok b', onTopics w { db with topicNames := tn, schemas := sc }) ∧
        db.topicNames.Extends tn ∧ db.schemas.Extends sc ∧
        NamesBound { db with topicNames := tn, schemas := sc } ∧
        List.Forall₂ (Named tn sc) b' (channels.foldl
          (fun m ch => tally ch.topic (ch.schemaName, ch.schemaEncoding) ch.messageCount m) m) := by
  induction channels generalizing db b m with
  | nil => exact ⟨_, _, _, rfl, Table.Extends.refl _, Table.Extends.refl _, hbound, hm⟩
  | cons ch channels ih =>
      have hstep := addChannel_onTopics hq hbound ch hm
      rw [channelsError, List.findSome?_cons]
      rcases he : channelError ch with _ | e
      · rw [he] at hstep
        obtain ⟨tn, sc, b', hrun, ht, hs, hbound', hm'⟩ := hstep
        have hrest := ih hbound' hm'
        rw [← channelsError, foldEach_cons, bind_of_ok hrun]
        rcases hes : channelsError channels with _ | e
        · rw [hes] at hrest
          obtain ⟨tn', sc', b'', hrun', ht', hs', hbound'', hm''⟩ := hrest
          exact ⟨tn', sc', b'', hrun', ht.trans ht', hs.trans hs', hbound'', hm''⟩
        · rw [hes] at hrest
          exact hrest
      · rw [he] at hstep
        obtain ⟨db', hrun⟩ := hstep
        exact ⟨db', by rw [foldEach_cons, bind_of_error hrun]⟩

end Loop

/-! ### Resolving a topic set -/

/-- The members of a set are determined by the stored rows. -/
theorem selectMembers_eq {db : Db} {setId : ℕ} {members : List (ℕ × ℕ)}
    (hstrict : members.Pairwise fun p q => p.1 < q.1)
    (h : ∀ t c, db.topicSetMembers.lookup (setId, t) = some c ↔ (t, c) ∈ members) :
    db.selectMembers setId = members :=
  orderFst_eq_of_mem_iff (nodup_under _ _) hstrict fun p => mem_under.trans (h p.1 p.2)

theorem selectMembers_strict (db : Db) (setId : ℕ) :
    (db.selectMembers setId).Pairwise fun p q => p.1 < q.1 :=
  orderFst_strict (nodup_under _ _)

theorem mem_selectMembers {db : Db} {setId t c : ℕ} :
    (t, c) ∈ db.selectMembers setId ↔ db.topicSetMembers.lookup (setId, t) = some c :=
  mem_orderFst.trans mem_under

/-- Equal rows of a set give equal members. -/
theorem selectMembers_congr {db db' : Db} {s : ℕ}
    (h : ∀ t, db'.topicSetMembers.lookup (s, t) = db.topicSetMembers.lookup (s, t)) :
    db'.selectMembers s = db.selectMembers s :=
  selectMembers_eq (selectMembers_strict db s) fun t c => by rw [h, mem_selectMembers]

/-- The rows an `executemany` over members stores. -/
def memberRows (setId : ℕ) (members : List (ℕ × ℕ)) : List ((ℕ × ℕ) × ℕ) :=
  members.map fun m => ((setId, m.1), m.2)

section TopicSet

variable {w : World}

/-- **Storing the members**, when none of them is there yet and everything they refer to is. -/
theorem each_insertMember (hq : w.Quiet) (setId : ℕ) (members : List (ℕ × ℕ)) {db : Db}
    (hset : (db.topicSets.get setId).isSome) (hnd : (members.map Prod.fst).Nodup)
    (hrefs : ∀ m ∈ members, (db.topicNames.get m.1).isSome ∧ (db.schemas.get m.2).isSome)
    (hfree : ∀ m ∈ members, db.topicSetMembers.lookup (setId, m.1) = none) :
    each (fun m => executeChecked [] (Db.insertMember setId m.1 m.2)) members (w.setWorking db) =
      (.ok (), w.setWorking
        { db with topicSetMembers := insertAll db.topicSetMembers (memberRows setId members) }) := by
  induction members generalizing db with
  | nil => rfl
  | cons m members ih =>
      rw [List.map_cons, List.nodup_cons] at hnd
      obtain ⟨ht, hs⟩ := hrefs m List.mem_cons_self
      have hnone := hfree m List.mem_cons_self
      have hrun : Db.insertMember setId m.1 m.2 (w.setWorking db).conn.working =
          .ok { db with topicSetMembers := db.topicSetMembers.insert (setId, m.1) m.2 } := by
        simp only [Db.insertMember, World.setWorking_conn, hnone, Option.isSome_none, Bool.false_eq_true,
          if_false, Db.references, hset, ht, hs, Bool.and_self, if_true]
      rw [each_cons, bind_of_ok (executeChecked_ok (hq.setWorking _) bindError_nil hrun)]
      have hfree' : ∀ m' ∈ members,
          (db.topicSetMembers.insert (setId, m.1) m.2).lookup (setId, m'.1) = none := by
        intro m' hm'
        have hne : (setId, m'.1) ≠ (setId, m.1) := by
          intro heq
          have hfst : m'.1 = m.1 := (Prod.ext_iff.mp heq).2
          exact hnd.1 (hfst ▸ List.mem_map_of_mem hm')
        rw [AList.lookup_insert_ne hne]
        exact hfree m' (List.mem_cons_of_mem _ hm')
      exact @ih { db with topicSetMembers := db.topicSetMembers.insert (setId, m.1) m.2 } hset hnd.2
        (fun m' hm' => hrefs m' (List.mem_cons_of_mem _ hm')) hfree'

/-- The database after a new set was stored. -/
def withTopicSet (fingerprint : PyStr) (members : List (ℕ × ℕ)) (db : Db) : Db :=
  { db with
    topicSets := db.topicSets.insertOrIgnore fingerprint ()
    topicSetMembers := insertAll db.topicSetMembers (memberRows db.topicSets.nextId members) }

/-- What resolving a topic set establishes. -/
structure SetResolved (env : Env) (members : List (ℕ × ℕ)) (db db' : Db) (setId : ℕ) : Prop where
  only : ∃ sets rows, db' = { db with topicSets := sets, topicSetMembers := rows }
  grow : TopicsGrow db db'
  inv : TopicsInv env db'
  present : (db'.topicSets.get setId).isSome
  members : db'.selectMembers setId = members

/-- A new set, stored with its members, keeps the topic invariant. -/
theorem setResolved_withTopicSet {env : Env} {db : Db} (hinv : TopicsInv env db)
    {members : List (ℕ × ℕ)} (hstrict : members.Pairwise fun p q => p.1 < q.1)
    (hrefs : ∀ m ∈ members, (db.topicNames.get m.1).isSome ∧ (db.schemas.get m.2).isSome)
    (hnew : db.topicSets.find (computeSetFingerprint env members) = none) :
    SetResolved env members db (withTopicSet (computeSetFingerprint env members) members db)
      db.topicSets.nextId := by
  have hext : db.topicSets.Extends
      (withTopicSet (computeSetFingerprint env members) members db).topicSets :=
    Table.extends_insertOrIgnore
  have hget : ∀ i, (withTopicSet (computeSetFingerprint env members) members db).topicSets.get i =
      if i = db.topicSets.nextId then
        some ⟨db.topicSets.nextId, computeSetFingerprint env members, ()⟩
      else db.topicSets.get i := by
    intro i
    show (db.topicSets.insertOrIgnore _ ()).get i = _
    rw [Table.insertOrIgnore, dif_pos hnew, Table.get_insert hnew]
  have hpresent : ((withTopicSet (computeSetFingerprint env members) members db).topicSets.get
      db.topicSets.nextId).isSome := by rw [hget, if_pos rfl]; rfl
  -- The new id is fresh, so no member row carries it yet.
  have hfresh : ∀ t, db.topicSetMembers.lookup (db.topicSets.nextId, t) = none := by
    intro t
    rcases hl : db.topicSetMembers.lookup (db.topicSets.nextId, t) with _ | c
    · rfl
    · have := (hinv.memberRefs _ _ _ hl).1
      rw [Table.get_nextId] at this
      cases this
  have hnd : (members.map Prod.fst).Nodup := by
    rw [List.Nodup, List.pairwise_map]
    exact hstrict.imp fun hlt => Nat.ne_of_lt hlt
  have hkeys : ((memberRows db.topicSets.nextId members).map Prod.fst).Nodup := by
    rw [memberRows, List.map_map]
    have : (Prod.fst ∘ fun m : ℕ × ℕ => ((db.topicSets.nextId, m.1), m.2)) =
        (fun t => (db.topicSets.nextId, t)) ∘ Prod.fst := rfl
    rw [this, ← List.map_map]
    exact hnd.map fun _ _ h => (Prod.ext_iff.mp h).2
  have hother : ∀ s t, s ≠ db.topicSets.nextId →
      (insertAll db.topicSetMembers (memberRows db.topicSets.nextId members)).lookup (s, t) =
        db.topicSetMembers.lookup (s, t) := by
    intro s t hs
    apply lookup_insertAll_of_not_mem
    intro hmem
    obtain ⟨row, hrow, heq⟩ := List.mem_map.mp hmem
    obtain ⟨m, _, rfl⟩ := List.mem_map.mp hrow
    exact hs (Prod.ext_iff.mp heq).1.symm
  have hown : ∀ t c, (insertAll db.topicSetMembers (memberRows db.topicSets.nextId members)).lookup
      (db.topicSets.nextId, t) = some c ↔ (t, c) ∈ members := by
    intro t c
    constructor
    · intro hl
      by_cases hmem : (db.topicSets.nextId, t) ∈ (memberRows db.topicSets.nextId members).map Prod.fst
      · obtain ⟨row, hrow, heq⟩ := List.mem_map.mp hmem
        obtain ⟨m, hm, rfl⟩ := List.mem_map.mp hrow
        have hl' := lookup_insertAll_of_mem db.topicSetMembers _ hkeys hrow
        have ht : m.1 = t := (Prod.ext_iff.mp heq).2
        rw [ht] at hl'
        rw [hl'] at hl
        rw [← ht, ← Option.some.inj hl]
        exact hm
      · rw [lookup_insertAll_of_not_mem _ _ _ hmem, hfresh] at hl
        cases hl
    · intro hm
      exact lookup_insertAll_of_mem _ _ hkeys
        (List.mem_map.mpr ⟨(t, c), hm, rfl⟩ : ((db.topicSets.nextId, t), c) ∈ memberRows _ members)
  have hmembers : (withTopicSet (computeSetFingerprint env members) members db).selectMembers
      db.topicSets.nextId = members := selectMembers_eq hstrict hown
  have hkeep : ∀ s, s ≠ db.topicSets.nextId →
      (withTopicSet (computeSetFingerprint env members) members db).selectMembers s =
        db.selectMembers s :=
    fun s hs => selectMembers_congr fun t => hother s t hs
  have hold : ∀ s, (db.topicSets.get s).isSome → s ≠ db.topicSets.nextId := by
    rintro s hs rfl
    rw [Table.get_nextId] at hs
    cases hs
  refine ⟨⟨_, _, rfl⟩, ⟨Table.Extends.refl _, Table.Extends.refl _, hext, fun s hs => hkeep s (hold s hs)⟩,
    ⟨hinv.topicBound, hinv.schemaBound, ?_, ?_⟩, hpresent, hmembers⟩
  · intro s t c hl
    by_cases hs : s = db.topicSets.nextId
    · subst hs
      obtain ⟨ht, hc⟩ := hrefs (t, c) ((hown t c).mp hl)
      exact ⟨hpresent, ht, hc⟩
    · have hl' : db.topicSetMembers.lookup (s, t) = some c := (hother s t hs) ▸ hl
      obtain ⟨h1, h2, h3⟩ := hinv.memberRefs s t c hl'
      exact ⟨isSome_get_of_extends hext h1, h2, h3⟩
  · intro r hr
    have hr' := Table.get_of_mem hr
    rw [hget] at hr'
    split at hr'
    · cases hr'
      rw [hmembers]
    · rename_i hne
      rw [hkeep r.id hne]
      exact hinv.fingerprints r (Table.get_eq_some_iff.mp hr').1

/-- **Resolving a topic set** finds the set with these very members or stores it. -/
theorem resolveTopicSet_onTopics {env : Env} (hinj : FingerprintInjective env) (hq : w.Quiet) {db : Db}
    (hinv : TopicsInv env db) {members : List (ℕ × ℕ)}
    (hstrict : members.Pairwise fun p q => p.1 < q.1)
    (hrefs : ∀ m ∈ members, (db.topicNames.get m.1).isSome ∧ (db.schemas.get m.2).isSome) :
    ∃ db' setId, resolveTopicSet (computeSetFingerprint env members) members (onTopics w db) =
        (.ok setId, onTopics w db') ∧ SetResolved env members db db' setId := by
  rcases hid : db.topicSets.idOf (computeSetFingerprint env members) with _ | i
  · have hnew := Table.idOf_eq_none_iff.mp hid
    have hcache : (onTopics w db).caches.topicSet (computeSetFingerprint env members) = none := hid
    have hbind : bindError [.text (computeSetFingerprint env members)] = none := by
      rw [bindError_cons_eq_none_iff]
      exact ⟨bindError_text (env.encodable_sha256 _), bindError_nil⟩
    have hq' := onTopics_quiet hq db
    have hsorted : ¬members ≠ sortPairs members := by rw [sortPairs_eq_self hstrict]; exact fun h => h rfl
    have hinsert : insertTopicSet (computeSetFingerprint env members) (onTopics w db).conn.working =
        .ok { db with topicSets := db.topicSets.insertOrIgnore (computeSetFingerprint env members) () } := by
      rw [insertTopicSet, onTopics_conn]
      simp only [hnew, Option.isSome_none, Bool.false_eq_true, if_false]
    have hnextId : (db.topicSets.insertOrIgnore (computeSetFingerprint env members) ()).idOf
        (computeSetFingerprint env members) = some db.topicSets.nextId := by
      rw [Table.idOf_insertOrIgnore_self, hid]
      rfl
    have hres := setResolved_withTopicSet hinv hstrict hrefs hnew
    have hnd : (members.map Prod.fst).Nodup := by
      rw [List.Nodup, List.pairwise_map]
      exact hstrict.imp fun hlt => Nat.ne_of_lt hlt
    have hfree : ∀ m ∈ members, db.topicSetMembers.lookup (db.topicSets.nextId, m.1) = none := by
      intro m _
      rcases hl : db.topicSetMembers.lookup (db.topicSets.nextId, m.1) with _ | c
      · rfl
      · have := (hinv.memberRefs _ _ _ hl).1
        rw [Table.get_nextId] at this
        cases this
    have heach := @each_insertMember _ hq' db.topicSets.nextId members
      { db with topicSets := db.topicSets.insertOrIgnore (computeSetFingerprint env members) () }
      hres.present hnd hrefs hfree
    refine ⟨_, _, ?_, hres⟩
    rw [resolveTopicSet, bind_of_ok (look_apply _)]
    simp only [hcache]
    rw [bind_of_ok (query_ok hq' hbind _)]
    simp only [onTopics_conn, hid]
    rw [if_neg hsorted]
    rw [bind_of_ok (executeChecked_ok hq' hbind hinsert),
      bind_of_ok (queryId_ok (hq'.setWorking _) hbind hnextId), bind_of_ok heach]
    have hcaches : Function.update db.topicSets.idOf (computeSetFingerprint env members)
        (some db.topicSets.nextId) =
          (db.topicSets.insertOrIgnore (computeSetFingerprint env members) ()).idOf :=
      (Table.idOf_insertOrIgnore_of_find hnew).symm
    rw [rememberTopicSet, bind_of_ok (change_apply _ _)]
    show (Except.ok db.topicSets.nextId, World.setCaches _ { (onTopics w db).caches with
      topicSet := Function.update db.topicSets.idOf _ (some db.topicSets.nextId) }) = _
    rw [hcaches]
    rfl
  · have hcache : (onTopics w db).caches.topicSet (computeSetFingerprint env members) = some i := hid
    obtain ⟨r, hr, rfl⟩ := Option.map_eq_some_iff.mp hid
    obtain ⟨hmem, hkey⟩ := Table.find_eq_some_iff.mp hr
    have hfp := (hinv.fingerprints r hmem).symm.trans hkey
    have heq := fingerprint_inj hinj hfp
    rw [sortPairs_eq_self (selectMembers_strict db r.id), sortPairs_eq_self hstrict] at heq
    refine ⟨db, r.id, ?_, ⟨_, _, rfl⟩, TopicsGrow.refl db, hinv, ?_, heq⟩
    · rw [resolveTopicSet, bind_of_ok (look_apply _)]
      simp only [hcache]
      rfl
    · rw [Table.get_of_mem hmem]
      rfl

end TopicSet

/-! ### The transaction -/

/-- The stored columns of a file. -/
def storedCols (written : Written) (now : ℤ) (setId : ℕ) (blob : Bytes) : FileCols :=
  { fileCols written now setId blob with hasError := hasErrorOf written.summary }

/-- **A row encodes the summary it was written from**: its set's members and its blob are the merged channels
over ids, sorted by topic id, and the counts add up to the total. -/
def Encodes (db : Db) (cols : FileCols) : Prop :=
  ∃ byTopic : List (ℕ × (ℕ × ℕ)),
    List.Forall₂ (Named db.topicNames db.schemas) byTopic (mergeChannels cols.origin.summary.channels) ∧
    (db.topicSets.get cols.topicSetId).isSome ∧
    db.selectMembers cols.topicSetId = sortPairs (byTopic.map fun e => (e.1, e.2.1)) ∧
    cols.topicCounts = encodeCountsBlob
      ((sortPairs (byTopic.map fun e => (e.1, e.2.1))).map fun m => countOf byTopic m.1) ∧
    (cols.origin.summary.channels.map ChannelInfo.messageCount).sum = cols.origin.summary.messageCount

/-- Growing topic tables keep a row encoded. -/
theorem Encodes.mono {db db' : Db} (hg : TopicsGrow db db') {cols : FileCols} (h : Encodes db cols) :
    Encodes db' cols := by
  obtain ⟨byTopic, hnamed, hset, hmembers, hblob, hsum⟩ := h
  exact ⟨byTopic, hnamed.imp fun _ _ hn => hn.mono hg.topicNames hg.schemas,
    isSome_get_of_extends hg.topicSets hset, (hg.members _ hset).trans hmembers, hblob, hsum⟩

/-- Whether the four dimension rows of a file are there. -/
def idsPresent (db : Db) (ids : Ids) : Bool :=
  Db.references db.customers ids.customerId && Db.references db.sites ids.siteId &&
    Db.references db.robots ids.robotId && Db.references db.sources ids.sourceId

/-- What the count check raises. -/
def countError (summary : FileSummary) : Option PyErr :=
  if (summary.channels.map ChannelInfo.messageCount).sum ≠ summary.messageCount then
    some (.valueError (countMismatch (summary.channels.map ChannelInfo.messageCount).sum
      summary.messageCount))
  else none

/-- **What the transaction raises**: the first of the names that do not bind, the count check, the columns
that do not bind, a missing dimension row, and the failure key that does not bind. -/
def transactionError (present : Bool) (written : Written) : Option PyErr :=
  ((((channelsError written.summary.channels).or (countError written.summary)).or
    (bindError (fileParams written 0))).or (if present then none else some Db.foreignKeyFailed)).or
      (bindError [.text written.effKey])

/-- **What a committed transaction did.** -/
structure Wrote (env : Env) (key : FileKey) (written : Written) (db db' : Db) : Prop where
  customers : db'.customers = db.customers
  sites : db'.sites = db.sites
  robots : db'.robots = db.robots
  sources : db'.sources = db.sources
  grow : TopicsGrow db db'
  topics : TopicsInv env db'
  files : ∃ now setId blob, db'.files = db.files.upsert key (storedCols written now setId blob) ∧
    Encodes db' (storedCols written now setId blob)
  tagsEmbedded : db'.tagsEmbedded = keep (fun k => k.1 ≠ db.files.upsertId key) db.tagsEmbedded
  tagsOverride : db'.tagsOverride = db.tagsOverride
  catalogFailures : db'.catalogFailures = db.catalogFailures.erase written.effKey
  buildMetadata : db'.buildMetadata = db.buildMetadata
  removed : db'.removed = db.removed

theorem countOf_eq {byTopic : List (ℕ × (ℕ × ℕ))} (hnd : (byTopic.map Prod.fst).Nodup)
    {e : ℕ × (ℕ × ℕ)} (he : e ∈ byTopic) : countOf byTopic e.1 = e.2.2 := by
  have hentry : byTopic.find? (fun e' => e'.1 = e.1) = some e := (entry_eq_some_iff hnd).mpr ⟨he, rfl⟩
  rw [countOf, hentry]
  rfl

/-- The counts, in member order, are the counts of the dictionary in another order. -/
theorem sum_counts {byTopic : List (ℕ × (ℕ × ℕ))} (hnd : (byTopic.map Prod.fst).Nodup) :
    ((sortPairs (byTopic.map fun e => (e.1, e.2.1))).map fun m => countOf byTopic m.1).sum =
      (byTopic.map fun e => e.2.2).sum := by
  have hperm := (sortPairs_perm (byTopic.map fun e => (e.1, e.2.1))).map fun m => countOf byTopic m.1
  rw [hperm.sum_eq, List.map_map]
  congr 1
  apply List.map_congr_left
  intro e he
  exact countOf_eq hnd he

theorem sum_forall₂ {tn : Table PyStr Unit} {sc : Table (PyStr × PyStr) Unit}
    {b : List (ℕ × (ℕ × ℕ))} {m : List (PyStr × ((PyStr × PyStr) × ℕ))}
    (h : List.Forall₂ (Named tn sc) b m) : (b.map fun e => e.2.2).sum = (m.map fun e => e.2.2).sum := by
  induction h with
  | nil => rfl
  | cons he _ ih => rw [List.map_cons, List.map_cons, List.sum_cons, List.sum_cons, he.2.2, ih]

theorem isSome_get_of_idOf {κ ρ : Type} [DecidableEq κ] {t : Table κ ρ} {k : κ} {i : ℕ}
    (h : t.idOf k = some i) : (t.get i).isSome := by
  obtain ⟨r, hr, rfl⟩ := Option.map_eq_some_iff.mp h
  rw [Table.get_of_mem (Table.find_eq_some_iff.mp hr).1]
  rfl

/-- The clock's reading never decides whether the columns bind. -/
theorem bindError_fileParams (env : Env) (written : Written) (t : ℕ) :
    bindError (fileParams written (env.timeNs t)) = bindError (fileParams written 0) := by
  have hzero : (Param.int 0).bindError = none := by decide
  simp only [fileParams, bindError_cons, bindError_timeNs env t, hzero]

/-- Binding the columns binds the date and the file name. -/
theorem bindError_compositeParams {written : Written} {now : ℤ}
    (h : bindError (fileParams written now) = none) : bindError (compositeParams written.dims) = none := by
  simp only [fileParams, bindError_cons_eq_none_iff] at h
  simp only [compositeParams, bindError_cons_eq_none_iff]
  exact ⟨h.2.2.2.2.2.1, h.1, bindError_nil⟩

section Store

variable {w : World}

/-- The database after `storeFile`. -/
def stored (key : FileKey) (written : Written) (now : ℤ) (setId : ℕ) (counts : List ℕ)
    (db : Db) : Db :=
  { db with
    files := db.files.upsert key (storedCols written now setId (encodeCountsBlob counts))
    tagsEmbedded := keep (fun k => k.1 ≠ db.files.upsertId key) db.tagsEmbedded
    catalogFailures := db.catalogFailures.erase written.effKey }

/-- **Storing the row** raises at the first thing that does not bind or is not there, or stores it. -/
theorem storeFile_onTopics (env : Env) (hq : w.Quiet) (ids : Ids) (written : Written) {setId : ℕ}
    (counts : List ℕ) {db : Db} (hset : (db.topicSets.get setId).isSome) :
    match ((bindError (fileParams written 0)).or
        (if idsPresent db ids then none else some Db.foreignKeyFailed)).or
          (bindError [.text written.effKey]) with
    | some e => ∃ w', storeFile env ids written setId counts (onTopics w db) = (.error e, w') ∧
        w'.Quiet ∧ w'.conn.committed = w.conn.committed
    | none => storeFile env ids written setId counts (onTopics w db) =
        (.ok (), onTopics w.tickClock
          (stored (ids.key written.dims) written (env.timeNs w.clock) setId counts db)) := by
  have hq' : ((onTopics w db).tickClock).Quiet := hq
  have hnow : nowNs env (onTopics w db) = (.ok (env.timeNs w.clock), (onTopics w db).tickClock) := rfl
  rcases hparams : bindError (fileParams written 0) with _ | e
  · have hparams' : bindError (fileParams written (env.timeNs w.clock)) = none := by
      rw [bindError_fileParams, hparams]
    have hcomp := bindError_compositeParams hparams
    rcases hids : idsPresent db ids with _ | _
    · have hrun : Db.upsertFile (ids.key written.dims)
          (fileCols written (env.timeNs w.clock) setId (encodeCountsBlob counts))
          (onTopics w db).tickClock.conn.working = .error Db.foreignKeyFailed := by
        have hfk : ¬(idsPresent db ids && Db.references db.topicSets setId) = true := by
          rw [hids, Bool.false_and]
          exact Bool.false_ne_true
        exact if_neg hfk
      refine ⟨_, ?_, hq', rfl⟩
      rw [storeFile, bind_of_ok hnow]
      exact bind_of_error (executeChecked_error hq' hparams' hrun)
    · have hrun : Db.upsertFile (ids.key written.dims)
          (fileCols written (env.timeNs w.clock) setId (encodeCountsBlob counts))
          (onTopics w db).tickClock.conn.working =
            .ok { db with
              files := db.files.upsert (ids.key written.dims)
                (fileCols written (env.timeNs w.clock) setId (encodeCountsBlob counts)) } := by
        have hfk : (idsPresent db ids && Db.references db.topicSets setId) = true := by
          rw [hids, Db.references, hset]; rfl
        exact if_pos hfk
      have hid : (db.files.upsert (ids.key written.dims)
          (fileCols written (env.timeNs w.clock) setId (encodeCountsBlob counts))).idOf
            (ids.key written.dims) = some (db.files.upsertId (ids.key written.dims)) :=
        Table.idOf_upsert_self _ _ _
      rw [storeFile, bind_of_ok hnow, bind_of_ok (executeChecked_ok hq' hparams' hrun),
        bind_of_ok (queryId_ok (hq'.setWorking _) hcomp hid),
        bind_of_ok (execute_ok (hq'.setWorking _) bindError_nil _), deriveTags_eq_nil, each_nil]
      rw [bind_of_ok (pure_apply _ _), bind_of_ok (execute_ok ((hq'.setWorking _).setWorking _) bindError_nil _)]
      rcases heff : bindError [.text written.effKey] with _ | e
      · rw [execute_ok (((hq'.setWorking _).setWorking _).setWorking _) heff]
        simp only [World.setWorking_conn, Table.setVal_upsert]
        rfl
      · refine ⟨_, execute_unbound (((hq'.setWorking _).setWorking _).setWorking _) heff _, hq', rfl⟩
  · have hparams' : bindError (fileParams written (env.timeNs w.clock)) = some e := by
      rw [bindError_fileParams, hparams]
    refine ⟨_, ?_, hq', rfl⟩
    rw [storeFile, bind_of_ok hnow]
    exact bind_of_error (executeChecked_unbound hq' hparams' _)

/-- **The transaction** raises exactly `transactionError`, or commits to what `Wrote` says. -/
theorem fileTransaction_onTopics {env : Env} (hinj : FingerprintInjective env) (hq : w.Quiet) (ids : Ids)
    (written : Written) {db : Db} (hinv : TopicsInv env db) :
    match transactionError (idsPresent db ids) written with
    | some e => ∃ w', fileTransaction env ids written (onTopics w db) = (.error e, w') ∧ w'.Quiet ∧
        w'.conn.committed = w.conn.committed
    | none => ∃ db', fileTransaction env ids written (onTopics w db) =
        (.ok (), onTopics w.tickClock db') ∧ Wrote env (ids.key written.dims) written db db' := by
  have hloop := @foldEach_addChannel w hq written.summary.channels db
    ⟨hinv.topicBound, hinv.schemaBound⟩ [] [] List.Forall₂.nil
  rw [transactionError]
  rcases hchannels : channelsError written.summary.channels with _ | e
  · rw [hchannels] at hloop
    obtain ⟨tn, sc, byTopic, hrun, ht, hs, hbound, hnamed⟩ := hloop
    have hnd : (byTopic.map Prod.fst).Nodup := nodup_of_forall₂ hnamed (nodup_mergeChannels _)
    -- The members: distinct topics, so sorted by topic id, and all of them stored.
    have hmnd : ((byTopic.map fun e => (e.1, e.2.1)).map Prod.fst).Nodup := by
      rw [List.map_map]
      exact hnd
    have hstrict := sortPairs_strict hmnd
    have hinv1 : TopicsInv env { db with topicNames := tn, schemas := sc } :=
      ⟨hbound.1, hbound.2, fun s t c hl => by
        obtain ⟨h1, h2, h3⟩ := hinv.memberRefs s t c hl
        exact ⟨h1, isSome_get_of_extends ht h2, isSome_get_of_extends hs h3⟩, hinv.fingerprints⟩
    have hrefs : ∀ m ∈ sortPairs (byTopic.map fun e => (e.1, e.2.1)),
        (tn.get m.1).isSome ∧ (sc.get m.2).isSome := by
      intro m hm
      obtain ⟨e, he, rfl⟩ := List.mem_map.mp ((sortPairs_perm _).mem_iff.mp hm)
      obtain ⟨e', _, hn⟩ := exists_right_of_mem hnamed he
      exact ⟨isSome_get_of_idOf hn.1, isSome_get_of_idOf hn.2.1⟩
    obtain ⟨db2, setId, hset, hres⟩ := resolveTopicSet_onTopics hinj hq hinv1 hstrict hrefs
    obtain ⟨sets, rows, hdb2⟩ := hres.only
    have hsum : ((sortPairs (byTopic.map fun e => (e.1, e.2.1))).map fun m => countOf byTopic m.1).sum =
        (written.summary.channels.map ChannelInfo.messageCount).sum := by
      rw [sum_counts hnd, sum_forall₂ hnamed]
      exact sum_mergeChannels _
    rw [fileTransaction, bind_of_ok hrun, bind_of_ok hset, hsum]
    rw [Option.none_or, countError]
    by_cases hcount : (written.summary.channels.map ChannelInfo.messageCount).sum ≠
        written.summary.messageCount
    · rw [if_pos hcount, if_pos hcount]
      exact ⟨_, bind_of_error (raise_apply _ _), hq, rfl⟩
    · rw [if_neg hcount, if_neg hcount, Option.none_or]
      have hstore := @storeFile_onTopics w env hq ids written setId
        ((sortPairs (byTopic.map fun e => (e.1, e.2.1))).map fun m => countOf byTopic m.1) _ hres.present
      have hids : idsPresent db2 ids = idsPresent db ids := by rw [hdb2]; rfl
      rw [hids] at hstore
      rcases herr : ((bindError (fileParams written 0)).or
        (if idsPresent db ids then none else some Db.foreignKeyFailed)).or
          (bindError [.text written.effKey]) with _ | e
      · rw [herr] at hstore
        have hgrow : TopicsGrow db db2 :=
          TopicsGrow.trans (b := { db with topicNames := tn, schemas := sc })
            ⟨ht, hs, Table.Extends.refl _, fun _ _ => rfl⟩ hres.grow
        refine ⟨_, hstore, ?_⟩
        subst hdb2
        exact
          { customers := rfl
            sites := rfl
            robots := rfl
            sources := rfl
            grow := ⟨hgrow.topicNames, hgrow.schemas, hgrow.topicSets, hgrow.members⟩
            topics := ⟨hres.inv.topicBound, hres.inv.schemaBound, hres.inv.memberRefs,
              hres.inv.fingerprints⟩
            files := ⟨_, _, _, rfl, byTopic, hnamed, hres.present, hres.members, rfl,
              not_not.mp hcount⟩
            tagsEmbedded := rfl
            tagsOverride := rfl
            catalogFailures := rfl
            buildMetadata := rfl
            removed := rfl }
      · rw [herr] at hstore
        exact hstore
  · rw [hchannels] at hloop
    obtain ⟨db', hrun⟩ := hloop
    simp only [Option.some_or]
    exact ⟨onTopics w db', by rw [fileTransaction]; exact bind_of_error hrun, hq, rfl⟩

end Store

end McapCatalog.Builder
