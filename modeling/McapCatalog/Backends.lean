import McapCatalog.Storage

/-!
# The two backends

`S3Source` of `s3_storage.py` and `LocalSource` of `storage.py`, as sources over what their store holds at each
moment.

* `S3Object`, `Bucket`, `s3Source` — an object store: keys are object keys, the change token is the ETag, there
  is no in-file override;
* `LocalFs`, `localSource` — a file tree: keys are relative paths, the change token is synthesized from size and
  modification time, and a file may carry the key it is destined for.
-/

namespace McapCatalog.Storage

open McapCatalog.PyText McapCatalog.PyError McapCatalog.McapSummary McapCatalog.KeyedRows

/-! ### S3 -/

/-- An object of a bucket: its metadata, and what parsing it as an object of a given size comes to. -/
structure S3Object where
  eTag : PyStr
  contentLength : ℤ
  lastModifiedNs : ℤ
  parse : ℤ → Except PyErr (Option Summary)

/-- The contents of a bucket. -/
abbrev Bucket : Type := Rows PyStr S3Object

/-- `s.strip('"')`. -/
def stripQuotes (s : PyStr) : PyStr := (lstrip (lstrip s (cp '"')).reverse (cp '"')).reverse

/-- The fingerprint of an object. -/
def S3Object.stat (o : S3Object) : Stat := ⟨o.contentLength, stripQuotes o.eTag, o.lastModifiedNs⟩

/-- What a GET of an absent object raises. -/
def noSuchKey : PyErr := .other (py "ClientError") (py "An error occurred (NoSuchKey)")

/-- `S3Source` over the bucket `bucket t` at the moment `t`. -/
def s3Source (bucket : ℕ → Bucket) (keyPrefix : PyStr) : Source where
  stat t key := .ok (((bucket t).lookup key).map S3Object.stat)
  openSummary t key size :=
    match (bucket t).lookup key with
    | none => .error noSuchKey
    | some o => o.parse size
  listAll t := .ok (((bucket t).entries.filter fun e =>
    startsWith e.1 keyPrefix && endsWith e.1 (py ".mcap")).map fun e => ⟨e.1, e.2.stat⟩)
  eventKey payload := payload
  intendedKey _ _ := none
  waitForStable _ _ := true

/-! ### The local file system -/

/-- `_is_catalogable_name`. -/
def isCatalogableName (name : PyStr) : Bool :=
  endsWith name (py ".mcap") && !startsWith name (py ".") && !endsWith name (py ".mcap.tmp") &&
    !endsWith name (py ".part")

/-- `local_etag`. -/
def localEtag (size mtimeNs : ℤ) : PyStr := py "local:" ++ decimalInt size ++ py ":" ++ decimalInt mtimeNs

/-- The parts of a relative path. -/
def pathParts (path : PyStr) : List PyStr := path.splitOn (cp '/')

/-- What the file system answers under the watched root; `none` is an `OSError` of `os.stat`. -/
structure LocalFs where
  stat : ℕ → PyStr → Option (ℤ × ℤ)
  openSummary : ℕ → PyStr → Except PyErr (Option Summary)
  s3Key : ℕ → PyStr → Except PyErr (Option PyStr)
  files : ℕ → List PyStr
  stable : ℕ → PyStr → Bool

/-- `LocalSource.stat`. -/
def LocalFs.fingerprint (fs : LocalFs) (t : ℕ) (key : PyStr) : Option Stat :=
  (fs.stat t key).map fun st => ⟨st.1, localEtag st.1 st.2, st.2⟩

/-- Whether `LocalSource.list_all` surfaces a path: no hidden part, a catalogable name. -/
def isListedPath (path : PyStr) : Bool :=
  (pathParts path).all (fun part => !startsWith part (py ".")) &&
    isCatalogableName ((pathParts path).getLastD [])

/-- `LocalSource`; the payloads of its events are taken as relative paths already. -/
def localSource (fs : LocalFs) : Source where
  stat t key := .ok (fs.fingerprint t key)
  openSummary t key _ := fs.openSummary t key
  listAll t := .ok (((fs.files t).filter isListedPath).filterMap fun path =>
    (fs.fingerprint t path).map fun st => ⟨path, st⟩)
  eventKey payload := payload
  intendedKey t key :=
    match fs.s3Key t key with
    | .ok intended => intended
    | .error _ => none
  waitForStable t payload := fs.stable t payload

end McapCatalog.Storage
