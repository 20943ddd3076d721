import McapCatalog.Backends
import McapCatalog.Varint

/-!
# Objects and their versions

An object of a store is overwritten and deleted while it is being catalogued, so what a source answers comes from
versions: a HEAD and a listing from the version that stands at that moment, a reading from the versions that stand at
each of its requests.

* `Versions` — the versions behind a source, with what its answers say about them;
* `Parse`, `readinto` — the parser's reads, each of which `S3RangeReader` turns into one range GET;
* `S3Store`, `S3Store.source` — `S3Source` over a store that answers every request at a moment of its own;
* `S3Store.versions` — **the versions behind that source.**  A reading whose requests all meet one version comes to what
  parsing that version comes to; one that meets several may come to anything.
-/

namespace McapCatalog.Storage

open McapCatalog.PyText McapCatalog.PyError McapCatalog.McapSummary McapCatalog.Varint

/-- The versions behind a source.  The requests of one operation are counted within its moment, so `standing t j key v`
says that `v` is what stands at `key` at the j-th request of the moment `t`. -/
structure Versions (source : Source) where
  Version : Type
  /-- The fingerprint of a version. -/
  stat : Version → Stat
  /-- What reading a version comes to. -/
  content : Version → Except PyErr FileSummary
  standing : ℕ → ℕ → PyStr → Version → Prop
  stat_stands : ∀ t key st, source.stat t key = .ok (some st) → ∃ j v, standing t j key v ∧ stat v = st
  list_stands : ∀ t listings, source.listAll t = .ok listings →
    ∀ lst ∈ listings, ∃ j v, standing t j lst.key v ∧ stat v = lst.stat
  read_stands : ∀ t key v summary, (∀ j, standing t j key v) →
    source.readSummary t key (stat v).size = .ok summary → content v = .ok summary

/-! ### Range reads -/

/-- One version of an S3 object. -/
structure S3Version where
  eTag : PyStr
  lastModifiedNs : ℤ
  body : Bytes

/-- The fingerprint of a version. -/
def S3Version.stat (v : S3Version) : Stat := ⟨v.body.length, stripQuotes v.eTag, v.lastModifiedNs⟩

/-- `_HEADER_WINDOW`. -/
def headerWindow : ℕ := 65536

/-- What a GET past the end of an object raises. -/
def invalidRange : PyErr := .other (py "ClientError") (py "An error occurred (InvalidRange)")

/-- `get_object` with `Range: bytes=first-last`, by what the store has for the key. -/
def getRange (found : Except PyErr (Option S3Version)) (first last : ℕ) : Except PyErr Bytes :=
  match found with
  | .error e => .error e
  | .ok none => .error noSuchKey
  | .ok (some v) =>
    if first < v.body.length then .ok ((v.body.drop first).take (last + 1 - first)) else .error invalidRange

/-- `S3RangeReader.readinto` of `len` bytes at `pos`, for an object that was `size` bytes long at its fingerprint. -/
def readinto (found : Except PyErr (Option S3Version)) (size : ℤ) (pos len : ℕ) : Except PyErr Bytes :=
  if len = 0 then .ok []
  else if size ≤ pos then .ok []
  else
    let endExcl := if pos < headerWindow ∧ headerWindow < pos + len then headerWindow else pos + len
    getRange found pos ((min (endExcl : ℤ) size).toNat - 1)

/-- What the parser does with a stream: it reads somewhere and goes on with what it got, or it is done. -/
inductive Parse where
  | done (result : Except PyErr (Option Summary))
  | read (pos len : ℕ) (next : Except PyErr Bytes → Parse)

/-- The parser on a stream whose j-th read answers `answer j`. -/
def Parse.run (answer : ℕ → ℕ → ℕ → Except PyErr Bytes) (j : ℕ) : Parse → Except PyErr (Option Summary)
  | .done result => result
  | .read pos len next => (next (answer j pos len)).run answer (j + 1)

/-- The parser on a version that stays. -/
def S3Version.parse (parser : ℤ → Parse) (v : S3Version) : Except PyErr (Option Summary) :=
  (parser v.body.length).run (fun _ => readinto (.ok (some v)) v.body.length) 0

/-! ### A store that changes between requests -/

/-- What an object store answers: for a key at the j-th request of a moment, and the keys on each page of a LIST. -/
structure S3Store where
  object : ℕ → ℕ → PyStr → Except PyErr (Option S3Version)
  pages : ℕ → Except PyErr (List (List PyStr))

/-- The listings of the i-th page: what stands at its keys when it is answered. -/
def S3Store.page (store : S3Store) (t : ℕ) (p : List PyStr × ℕ) : List Listing :=
  (p.1.filter fun key => endsWith key (py ".mcap")).filterMap fun key =>
    match store.object t p.2 key with
    | .ok (some v) => some ⟨key, v.stat⟩
    | _ => none

/-- `S3Source` over such a store. -/
def S3Store.source (store : S3Store) (parser : ℤ → Parse) : Source where
  stat t key := (store.object t 0 key).map fun found => found.map S3Version.stat
  openSummary t key size := (parser size).run (fun j => readinto (store.object t j key) size) 0
  listAll t := (store.pages t).map fun pages => pages.zipIdx.flatMap (store.page t)
  eventKey payload := payload
  intendedKey _ _ := none
  waitForStable _ _ := true

/-- **The versions behind `S3Source`.** -/
def S3Store.versions (store : S3Store) (parser : ℤ → Parse) : Versions (store.source parser) where
  Version := S3Version
  stat := S3Version.stat
  content v := v.parse parser >>= summaryFromStream
  standing t j key v := store.object t j key = .ok (some v)
  stat_stands t key st h := by
    rcases hobj : store.object t 0 key with e | found
    · simp [S3Store.source, hobj, Except.map] at h
    · cases found with
      | none => simp [S3Store.source, hobj, Except.map] at h
      | some v => exact ⟨0, v, hobj, by simpa [S3Store.source, hobj, Except.map] using h⟩
  list_stands t listings h lst hlst := by
    rcases hpages : store.pages t with e | pages
    · simp [S3Store.source, hpages, Except.map] at h
    · have hall : pages.zipIdx.flatMap (store.page t) = listings := by
        simpa [S3Store.source, hpages, Except.map] using h
      rw [← hall] at hlst
      obtain ⟨p, _, hp⟩ := List.mem_flatMap.mp hlst
      obtain ⟨key, _, hkey⟩ := List.mem_filterMap.mp hp
      rcases hobj : store.object t p.2 key with e | found
      · simp [hobj] at hkey
      · cases found with
        | none => simp [hobj] at hkey
        | some v =>
            simp only [hobj, Option.some.injEq] at hkey
            rw [← hkey]
            exact ⟨p.2, v, hobj, rfl⟩
  read_stands t key v summary hv h := by
    have hsame : (fun j => readinto (store.object t j key) v.stat.size) =
        fun _ => readinto (.ok (some v)) v.stat.size := by
      funext j
      rw [hv j]
    have hopen : (store.source parser).openSummary t key v.stat.size = v.parse parser := by
      show (parser v.stat.size).run (fun j => readinto (store.object t j key) v.stat.size) 0 = _
      rw [hsame]
      rfl
    rw [Source.readSummary, hopen] at h
    cases hparse : v.parse parser with
    | error e => rw [hparse] at h; cases h
    | ok found => rw [hparse] at h; exact h

end McapCatalog.Storage
