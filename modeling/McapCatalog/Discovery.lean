import McapCatalog.Backends
import McapCatalog.UrlText
import McapCatalog.Worker

/-!
# Live discovery

The producers that put watch events on the work queue, `s3_producer.py` and `watcher.py`, beside the listings that a
rescan sweeps by.  Both admit an object by its name, each with tests of its own.

* `enqueueRecords`, `s3EventProducer` — notification records of a bucket, through a message queue;
* `FsEvent`, `EventHandler` — file-system events with a debounce timer for each path;
* `Arrival` — an object that appeared under the eyes of a producer, with the source that lists it later;
* `enqueued_iff`, `listed_iff` — what each side tests;
* `agree_iff_inScope` — **the two sides agree on an arrival exactly if it is in the scope of both.**
-/

namespace McapCatalog.Discovery

open McapCatalog.PyText McapCatalog.Storage McapCatalog.UrlText McapCatalog.Worker

/-! ### S3 notifications -/

/-- A record of a notification: `rec.get("eventName", "")`, the bucket it is about, which the producer does not
read, and `rec["s3"]["object"]["key"]`, which is absent when one of the lookups raises. -/
structure S3Record where
  eventName : PyStr
  bucket : PyStr
  key : Option PyStr

/-- `_enqueue_records`, on the records of a parsed body: what it has enqueued when it returns or raises. -/
def enqueueRecords : List S3Record → List WorkItem
  | [] => []
  | record :: records =>
    match record.key with
    | none => []
    | some encoded =>
      let key := unquotePlus encoded
      if !endsWith key (py ".mcap") then enqueueRecords records
      else if startsWith record.eventName (py "ObjectCreated") then .catalog key :: enqueueRecords records
      else if startsWith record.eventName (py "ObjectRemoved") then .delete key :: enqueueRecords records
      else enqueueRecords records

/-- `s3_event_producer`: the events of the messages received, in order; a body that does not parse is `none`. -/
def s3EventProducer (messages : List (Option (List S3Record))) : List WorkItem :=
  messages.flatMap fun body => enqueueRecords (body.getD [])

/-! ### File-system events -/

/-- A watchdog event. -/
structure FsEvent where
  isDirectory : Bool
  srcPath : PyStr
  destPath : PyStr

/-- `os.path.basename`. -/
def basename (path : PyStr) : PyStr := (pathParts path).getLastD []

/-- `_is_catalogable`: the name tests of the listing, on the last part of the path. -/
def isCatalogable (path : PyStr) : Bool := isCatalogableName (basename path)

/-- `McapEventHandler`: the paths with a timer, and what is on the queue. -/
structure EventHandler where
  timers : List PyStr
  queue : List WorkItem

namespace EventHandler

/-- A handler that has seen nothing. -/
def idle : EventHandler := ⟨[], []⟩

/-- The timer of a path, cancelled. -/
def cancel (h : EventHandler) (path : PyStr) : EventHandler :=
  { h with timers := h.timers.filter fun p => p ≠ path }

/-- `_schedule_catalog`. -/
def scheduleCatalog (h : EventHandler) (path : PyStr) : EventHandler :=
  { h with timers := path :: (h.cancel path).timers }

/-- `_fire_catalog`. -/
def fireCatalog (h : EventHandler) (path : PyStr) : EventHandler :=
  { h.cancel path with queue := h.queue ++ [.catalog path] }

/-- `on_created`. -/
def onCreated (h : EventHandler) (event : FsEvent) : EventHandler :=
  if !event.isDirectory && isCatalogable event.srcPath then h.scheduleCatalog event.srcPath else h

/-- `on_modified`. -/
def onModified (h : EventHandler) (event : FsEvent) : EventHandler :=
  if !event.isDirectory && isCatalogable event.srcPath then h.scheduleCatalog event.srcPath else h

/-- `on_deleted`. -/
def onDeleted (h : EventHandler) (event : FsEvent) : EventHandler :=
  if !event.isDirectory && isCatalogable event.srcPath then
    { h.cancel event.srcPath with queue := h.queue ++ [.delete event.srcPath] }
  else h

/-- `on_moved`. -/
def onMoved (h : EventHandler) (event : FsEvent) : EventHandler :=
  if event.isDirectory then h
  else
    let h := if isCatalogable event.srcPath then { h with queue := h.queue ++ [.delete event.srcPath] } else h
    if isCatalogable event.destPath then h.scheduleCatalog event.destPath else h

end EventHandler

/-- What can happen to a handler; `fire` is the timer of a path running out. -/
inductive HandlerStep : EventHandler → EventHandler → Prop where
  | created (h : EventHandler) (event : FsEvent) : HandlerStep h (h.onCreated event)
  | modified (h : EventHandler) (event : FsEvent) : HandlerStep h (h.onModified event)
  | deleted (h : EventHandler) (event : FsEvent) : HandlerStep h (h.onDeleted event)
  | moved (h : EventHandler) (event : FsEvent) : HandlerStep h (h.onMoved event)
  | fire (h : EventHandler) (path : PyStr) (ht : path ∈ h.timers) : HandlerStep h (h.fireCatalog path)

/-- The handlers a run of events reaches. -/
inductive Watching : EventHandler → Prop where
  | idle : Watching EventHandler.idle
  | step {h h' : EventHandler} (hw : Watching h) (hs : HandlerStep h h') : Watching h'

/-- Every catalog event, due or enqueued, is for a path with a catalogable name. -/
structure NamesCatalogable (h : EventHandler) : Prop where
  timers : ∀ path ∈ h.timers, isCatalogable path = true
  queue : ∀ path, WorkItem.catalog path ∈ h.queue → isCatalogable path = true

namespace NamesCatalogable

variable {h : EventHandler} {path : PyStr}

theorem cancel (hn : NamesCatalogable h) (path : PyStr) : NamesCatalogable (h.cancel path) :=
  ⟨fun p hp => hn.timers p (List.mem_filter.mp hp).1, hn.queue⟩

theorem scheduleCatalog (hn : NamesCatalogable h) (hp : isCatalogable path = true) :
    NamesCatalogable (h.scheduleCatalog path) := by
  refine ⟨fun p hmem => ?_, hn.queue⟩
  cases List.mem_cons.mp hmem with
  | inl heq => rw [heq]; exact hp
  | inr hold => exact (hn.cancel path).timers p hold

/-- Putting an event on the queue. -/
theorem enqueue (hn : NamesCatalogable h) {item : WorkItem}
    (hitem : ∀ path, item = .catalog path → isCatalogable path = true) :
    NamesCatalogable { h with queue := h.queue ++ [item] } := by
  refine ⟨hn.timers, fun p hmem => ?_⟩
  cases List.mem_append.mp hmem with
  | inl hold => exact hn.queue p hold
  | inr hnew => exact hitem p (List.mem_singleton.mp hnew).symm

end NamesCatalogable

/-- **One event keeps to catalogable names.** -/
theorem HandlerStep.namesCatalogable {h h' : EventHandler} (hs : HandlerStep h h') (hn : NamesCatalogable h) :
    NamesCatalogable h' := by
  cases hs with
  | created event =>
      unfold EventHandler.onCreated
      split
      · rename_i hc
        exact hn.scheduleCatalog (Bool.and_eq_true_iff.mp hc).2
      · exact hn
  | modified event =>
      unfold EventHandler.onModified
      split
      · rename_i hc
        exact hn.scheduleCatalog (Bool.and_eq_true_iff.mp hc).2
      · exact hn
  | deleted event =>
      unfold EventHandler.onDeleted
      split
      · exact (hn.cancel event.srcPath).enqueue fun path heq => by cases heq
      · exact hn
  | moved event =>
      unfold EventHandler.onMoved
      split
      · exact hn
      have hsrc : NamesCatalogable (if isCatalogable event.srcPath then
          { h with queue := h.queue ++ [.delete event.srcPath] } else h) := by
        split
        · exact hn.enqueue fun path heq => by cases heq
        · exact hn
      dsimp only
      split
      · rename_i hc
        exact hsrc.scheduleCatalog hc
      · exact hsrc
  | fire path hmem =>
      refine (hn.cancel path).enqueue fun p heq => ?_
      cases heq
      exact hn.timers path hmem

/-- **A handler asks for catalogable names only**, whatever events it sees. -/
theorem Watching.namesCatalogable {h : EventHandler} (hw : Watching h) : NamesCatalogable h := by
  induction hw with
  | idle => exact ⟨fun _ hp => absurd hp List.not_mem_nil, fun _ hp => absurd hp List.not_mem_nil⟩
  | step _ hs ih => exact hs.namesCatalogable ih

/-! ### Arrivals -/

/-- How a path appears: created in place, or renamed from another one. -/
inductive Appearance where
  | created
  | moved (source : PyStr)

/-- An object that appeared, the producer that is told about it, and the source that a rescan lists. -/
inductive Arrival where
  /-- An object `key` of the bucket `home`, and its notification; the builder runs on `bucket` under `keyPrefix`. -/
  | s3 (bucket keyPrefix : PyStr) (store : PyStr → ℕ → Bucket) (home key : PyStr) (record : S3Record)
  /-- A path below the watched root. -/
  | file (root : PyStr) (fs : LocalFs) (path : PyStr) (isDirectory : Bool) (how : Appearance)

namespace Arrival

/-- `os.path.join(root, path)`. -/
def fullPath (root path : PyStr) : PyStr := root ++ cp '/' :: path

/-- What the handler does about a path that appears. -/
def seen (path : PyStr) (isDirectory : Bool) (handler : EventHandler) : Appearance → EventHandler
  | .created => handler.onCreated ⟨isDirectory, path, []⟩
  | .moved source => handler.onMoved ⟨isDirectory, source, path⟩

/-- The object is there at the moment `t`, and the notification is about it. -/
def Occurs (t : ℕ) : Arrival → Prop
  | .s3 _ _ store home key record =>
    ((store home t).lookup key).isSome ∧ startsWith record.eventName (py "ObjectCreated") ∧
      record.bucket = home ∧ record.key.map unquotePlus = some key
  | .file _ fs path _ _ => path ∈ fs.files t ∧ (fs.stat t path).isSome

/-- The producer enqueues a catalog event for it: at once, or when the timer it starts runs out
(`catalog_mem_fireCatalog`). -/
def Enqueued : Arrival → Prop
  | .s3 _ _ _ _ key record => .catalog key ∈ enqueueRecords [record]
  | .file root _ path isDirectory how =>
    ∀ handler, fullPath root path ∈ (seen (fullPath root path) isDirectory handler how).timers

/-- The listing at the moment `t` has it. -/
def Listed (t : ℕ) : Arrival → Prop
  | .s3 bucket keyPrefix store home key _ =>
    home = bucket ∧ ∃ listings, (s3Source (store bucket) keyPrefix).listAll t = .ok listings ∧
      key ∈ listings.map Listing.key
  | .file _ fs path _ _ =>
    ∃ listings, (localSource fs).listAll t = .ok listings ∧ path ∈ listings.map Listing.key

/-- A hidden part of a path. -/
def isHidden (path : PyStr) : Bool := (pathParts path).any fun part => startsWith part (py ".")

/-- The object is in the scope of both sides, or of neither: one with the suffix `.mcap` lies in the configured bucket
under the configured prefix, a path with a catalogable name is a file outside hidden directories (or a directory with
a hidden part). -/
def InScope : Arrival → Prop
  | .s3 bucket keyPrefix _ home key _ =>
    endsWith key (py ".mcap") = true → home = bucket ∧ startsWith key keyPrefix = true
  | .file _ _ path isDirectory _ => isCatalogableName (basename path) = true → isDirectory = isHidden path

theorem catalog_mem_fireCatalog (handler : EventHandler) (path : PyStr) :
    WorkItem.catalog path ∈ (handler.fireCatalog path).queue :=
  List.mem_append_right _ List.mem_cons_self

theorem basename_fullPath (root path : PyStr) : basename (fullPath root path) = basename path := by
  have hsplit : pathParts (fullPath root path) = pathParts root ++ pathParts path := by
    show (root ++ cp '/' :: path).splitOn (cp '/') = root.splitOn (cp '/') ++ path.splitOn (cp '/')
    exact List.splitOnP_append_cons _ _ (by simp)
  have hne : pathParts path ≠ [] := List.splitOnP_ne_nil _ _
  rw [basename, basename, hsplit, List.getLastD_eq_getLast?, List.getLastD_eq_getLast?,
    List.getLast?_append_of_ne_nil _ hne]

/-- What each producer tests. -/
def Noticed : Arrival → Prop
  | .s3 _ _ _ _ key _ => endsWith key (py ".mcap") = true
  | .file _ _ path isDirectory _ => isDirectory = false ∧ isCatalogableName (basename path) = true

/-- What each listing tests. -/
def Surfaced : Arrival → Prop
  | .s3 bucket keyPrefix _ home key _ =>
    home = bucket ∧ startsWith key keyPrefix = true ∧ endsWith key (py ".mcap") = true
  | .file _ _ path _ _ => isHidden path = false ∧ isCatalogableName (basename path) = true

variable {a : Arrival} {t : ℕ}

/-- The handler starts a timer exactly for a file with a catalogable name. -/
theorem mem_timers_seen_idle (path : PyStr) (isDirectory : Bool) (how : Appearance) :
    path ∈ (seen path isDirectory EventHandler.idle how).timers ↔ isDirectory = false ∧ isCatalogable path = true := by
  cases how with
  | created =>
      rw [seen, EventHandler.onCreated]
      cases isDirectory <;> cases isCatalogable path <;>
        simp [EventHandler.idle, EventHandler.scheduleCatalog]
  | moved source =>
      rw [seen, EventHandler.onMoved]
      cases isDirectory <;> cases isCatalogable path <;> cases isCatalogable source <;>
        simp [EventHandler.idle, EventHandler.scheduleCatalog]

theorem mem_timers_seen (handler : EventHandler) {path : PyStr} (h : isCatalogable path = true) (how : Appearance) :
    path ∈ (seen path false handler how).timers := by
  cases how with
  | created =>
      rw [seen, EventHandler.onCreated, if_pos (by simp [h])]
      exact List.mem_cons_self
  | moved source =>
      rw [seen, EventHandler.onMoved, if_neg (by simp)]
      dsimp only
      rw [if_pos h]
      exact List.mem_cons_self

/-- **A producer enqueues what it notices.** -/
theorem enqueued_iff (h : a.Occurs t) : a.Enqueued ↔ a.Noticed := by
  cases a with
  | s3 bucket keyPrefix store home key record =>
      obtain ⟨_, hname, _, hkey⟩ := h
      obtain ⟨encoded, hencoded, rfl⟩ := Option.map_eq_some_iff.mp hkey
      simp only [Enqueued, Noticed, enqueueRecords, hencoded, hname, if_true]
      cases hends : endsWith (unquotePlus encoded) (py ".mcap") with
      | false => simp
      | true => simp
  | file root fs path isDirectory how =>
      have hname : isCatalogable (fullPath root path) = isCatalogableName (basename path) := by
        rw [isCatalogable, basename_fullPath]
      constructor
      · intro henqueued
        have htimers := (mem_timers_seen_idle _ isDirectory how).mp (henqueued EventHandler.idle)
        rwa [hname] at htimers
      · rintro ⟨rfl, hcatalogable⟩ handler
        exact mem_timers_seen handler (hname.trans hcatalogable) how

theorem isListedPath_iff (path : PyStr) :
    isListedPath path = true ↔ isHidden path = false ∧ isCatalogableName (basename path) = true := by
  rw [isListedPath, isHidden, Bool.and_eq_true]
  refine and_congr ?_ Iff.rfl
  simp [List.all_eq_true, List.any_eq_false]

/-- **A listing has what it surfaces.** -/
theorem listed_iff (h : a.Occurs t) : a.Listed t ↔ a.Surfaced := by
  cases a with
  | s3 bucket keyPrefix store home key record =>
      refine and_congr_right fun hhome => ?_
      subst hhome
      obtain ⟨o, ho⟩ := Option.isSome_iff_exists.mp h.1
      constructor
      · rintro ⟨listings, hlist, hmem⟩
        obtain rfl := Except.ok.inj hlist
        obtain ⟨lst, hlst, rfl⟩ := List.mem_map.mp hmem
        obtain ⟨e, he, rfl⟩ := List.mem_map.mp hlst
        exact Bool.and_eq_true_iff.mp (List.mem_filter.mp he).2
      · intro htests
        refine ⟨_, rfl, List.mem_map.mpr ⟨⟨key, o.stat⟩, List.mem_map.mpr ⟨⟨key, o⟩, ?_, rfl⟩, rfl⟩⟩
        exact List.mem_filter.mpr ⟨AList.mem_lookup_iff.mp ho, Bool.and_eq_true_iff.mpr htests⟩
  | file root fs path isDirectory how =>
      obtain ⟨hpath, hstat⟩ := h
      obtain ⟨st, hst⟩ := Option.isSome_iff_exists.mp hstat
      refine Iff.trans ?_ (isListedPath_iff path)
      constructor
      · rintro ⟨listings, hlist, hmem⟩
        obtain rfl := Except.ok.inj hlist
        obtain ⟨lst, hlst, rfl⟩ := List.mem_map.mp hmem
        obtain ⟨p, hp, hlst⟩ := List.mem_filterMap.mp hlst
        obtain ⟨_, _, rfl⟩ := Option.map_eq_some_iff.mp hlst
        exact (List.mem_filter.mp hp).2
      · intro hlisted
        refine ⟨_, rfl, List.mem_map.mpr ⟨⟨path, ⟨st.1, localEtag st.1 st.2, st.2⟩⟩, ?_, rfl⟩⟩
        refine List.mem_filterMap.mpr ⟨path, List.mem_filter.mpr ⟨hpath, hlisted⟩, ?_⟩
        rw [LocalFs.fingerprint, hst]
        rfl

/-- **Live discovery and the listing agree on an arrival exactly if it is in the scope of both, or of neither.** -/
theorem agree_iff_inScope (h : a.Occurs t) : (a.Enqueued ↔ a.Listed t) ↔ a.InScope := by
  rw [enqueued_iff h, listed_iff h]
  cases a with
  | s3 bucket keyPrefix store home key record =>
      simp only [Noticed, Surfaced, InScope]
      tauto
  | file root fs path isDirectory how =>
      simp only [Noticed, Surfaced, InScope]
      cases isDirectory <;> cases isHidden path <;> simp

end Arrival

/-! ### An object outside the prefix -/

/-- A recording of another customer than the one the builder is scoped to. -/
def otherKey : PyStr := py "customer=b/customer_site=s/robot=r/source=x/date=d/a.mcap"

/-- The bucket it lies in. -/
def otherBucket : Bucket := (∅ : Bucket).insert otherKey ⟨py "e", 1, 1, fun _ => .ok none⟩

/-- Its notification reaches a builder with the prefix `customer=a/`. -/
def otherArrival : Arrival :=
  .s3 (py "recordings") (py "customer=a/") (fun _ _ => otherBucket) (py "recordings") otherKey
    ⟨py "ObjectCreated:Put", py "recordings",
      some (py "customer%3Db/customer_site%3Ds/robot%3Dr/source%3Dx/date%3Dd/a.mcap")⟩

theorem otherArrival_occurs : otherArrival.Occurs 0 :=
  ⟨by decide +kernel, by decide +kernel, rfl, by decide +kernel⟩

/-- **The producer enqueues what the listing leaves out.** -/
theorem otherArrival_disagrees : otherArrival.Occurs 0 ∧ otherArrival.Enqueued ∧ ¬otherArrival.Listed 0 := by
  have hnoticed : endsWith otherKey (py ".mcap") = true := by decide +kernel
  have houtside : startsWith otherKey (py "customer=a/") = false := by decide +kernel
  refine ⟨otherArrival_occurs, (Arrival.enqueued_iff otherArrival_occurs).mpr hnoticed, fun hlisted => ?_⟩
  have hsurfaced := ((Arrival.listed_iff otherArrival_occurs).mp hlisted).2.1
  rw [houtside] at hsurfaced
  cases hsurfaced

/-- A file in a hidden directory. -/
def trashedArrival : Arrival :=
  .file (py "/data") ⟨fun _ _ => some (1, 1), fun _ _ => .ok none, fun _ _ => .ok none, fun _ => [py ".trash/a.mcap"],
    fun _ _ => true⟩ (py ".trash/a.mcap") false .created

theorem agree_iff_inScope_trashed : ¬(trashedArrival.Enqueued ↔ trashedArrival.Listed 0) := by
  have hout : ¬trashedArrival.InScope := by
    rw [trashedArrival, Arrival.InScope]
    decide +kernel
  have hoccurs : trashedArrival.Occurs 0 := ⟨List.mem_cons_self, rfl⟩
  exact fun hagree => hout ((Arrival.agree_iff_inScope hoccurs).mp hagree)

end McapCatalog.Discovery
