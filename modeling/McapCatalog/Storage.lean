import McapCatalog.McapSummary

/-!
# Storage backends

`storage.py`: what the catalog builder asks of the place where recordings live.  A backend is not under the
builder's control: objects are overwritten and deleted while it runs, and any read may fail.  So a `Source`
answers each question **at a moment**, the tick of the asking; a source that does not change is one whose
answers do not depend on the tick (`Source.Unchanging`).

* `Stat`, `Listing` — the fingerprint of an object, alone and with its key;
* `Source` — the protocol, one field per method;
* `Source.readSummary` — opening an object and reading its facts, the slow part of cataloging.
-/

namespace McapCatalog.Storage

open McapCatalog.PyText McapCatalog.PyError McapCatalog.McapSummary

/-- `Stat`: a recording's cheap fingerprint. -/
structure Stat where
  size : ℤ
  etag : PyStr
  mtimeNs : ℤ
  deriving DecidableEq

/-- `Listing`: one recording surfaced by a full listing. -/
structure Listing where
  key : PyStr
  stat : Stat
  deriving DecidableEq

/-- The `Source` protocol.  `openSummary` is `open_summary` followed by the parser's `get_summary`, which may
raise on the bytes it is given. -/
structure Source where
  /-- Fingerprint for a key, or `none` if the object is gone. -/
  stat : ℕ → PyStr → Except PyErr (Option Stat)
  /-- The parsed summary section of an object. -/
  openSummary : ℕ → PyStr → ℤ → Except PyErr (Option Summary)
  /-- Every catalogable recording. -/
  listAll : ℕ → Except PyErr (List Listing)
  /-- Map the payload of a watch event to a key. -/
  eventKey : PyStr → PyStr
  /-- An overriding object key embedded in the file. -/
  intendedKey : ℕ → PyStr → Option PyStr
  /-- Whether the file is safe to read now. -/
  waitForStable : ℕ → PyStr → Bool

/-- A source that gives the same answers at every moment. -/
structure Source.Unchanging (source : Source) : Prop where
  stat : ∀ t t', source.stat t = source.stat t'
  openSummary : ∀ t t', source.openSummary t = source.openSummary t'
  listAll : ∀ t t', source.listAll t = source.listAll t'
  intendedKey : ∀ t t', source.intendedKey t = source.intendedKey t'

/-- `with source.open_summary(key, size) as stream: summary = summary_from_stream(stream)`. -/
def Source.readSummary (source : Source) (t : ℕ) (key : PyStr) (size : ℤ) : Except PyErr FileSummary :=
  match source.openSummary t key size with
  | .error e => .error e
  | .ok summary => summaryFromStream summary

end McapCatalog.Storage
