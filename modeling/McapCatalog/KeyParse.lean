import McapCatalog.PyText
import McapCatalog.Library.GreedyTemplate

/-!
# Hive object keys

`keyparse.py`: the object key
`customer=<c>/customer_site=<site>/robot=<r>/source=<s>/date=<d>/<filename>.mcap`.

* `Dims` — the six parsed fields, the identity of a recording;
* `parseHiveKey` — `HIVE_RE.match(key.lstrip("/"))`, with the regular expression as a greedy template whose end
  anchor `$` also accepts one trailing newline;
* `rebuildHiveKey` — the inverse the catalog builder checks a parse against;
* `parseHiveKey_eq_some` — what a parse says: the stripped key is the rebuilt key, up to that newline;
* `encodable_rebuildHiveKey` — the key can be bound by `sqlite3` exactly if each field can.
-/

namespace McapCatalog.KeyParse

open McapCatalog.PyText McapCatalog.GreedyTemplate

/-- `m.groupdict()`: the dimensions a key names. -/
structure Dims where
  customer : PyStr
  site : PyStr
  robot : PyStr
  source : PyStr
  date : PyStr
  filename : PyStr
  deriving DecidableEq

/-- The class `[^/]`. -/
def notSlash (c : CodePoint) : Bool := c ≠ cp '/'

/-- The anchor `$` of a pattern without flags: the end, or just before one final newline. -/
def atDollar (s : PyStr) : Bool := s = [] ∨ s = py "\n"

/-- `HIVE_RE`. -/
def hiveRe : List (Piece CodePoint) :=
  [.lit (py "customer="), .group notSlash [],
   .lit (py "/customer_site="), .group notSlash [],
   .lit (py "/robot="), .group notSlash [],
   .lit (py "/source="), .group notSlash [],
   .lit (py "/date="), .group notSlash [],
   .lit (py "/"), .group notSlash (py ".mcap")]

/-- `parse_hive_key`. -/
def parseHiveKey (key : PyStr) : Option Dims :=
  match run atDollar hiveRe (lstrip key (cp '/')) with
  | some [customer, site, robot, source, date, filename] =>
    some ⟨customer, site, robot, source, date, filename⟩
  | _ => none

/-- `rebuild_hive_key`. -/
def rebuildHiveKey (dims : Dims) : PyStr :=
  py "customer=" ++ (dims.customer ++ (py "/customer_site=" ++ (dims.site ++ (py "/robot=" ++
    (dims.robot ++ (py "/source=" ++ (dims.source ++ (py "/date=" ++ (dims.date ++ (py "/" ++
      dims.filename))))))))))

/-- **What a parse says.** -/
theorem parseHiveKey_eq_some {key : PyStr} {dims : Dims} (h : parseHiveKey key = some dims) :
    ∃ tail, atDollar tail = true ∧ lstrip key (cp '/') = rebuildHiveKey dims ++ tail := by
  unfold parseHiveKey at h
  split at h
  · rename_i customer site robot source date filename hrun
    obtain ⟨_, tail, htail, hkey⟩ := run_render _ _ _ _ hrun
    cases h
    refine ⟨tail, htail, ?_⟩
    rw [hkey]
    simp only [hiveRe, render, rebuildHiveKey, List.append_nil]
  · exact absurd h (by simp)

/-- A key is bindable exactly if each of its fields is. -/
theorem encodable_rebuildHiveKey (dims : Dims) :
    encodable (rebuildHiveKey dims) = (encodable dims.customer && encodable dims.site &&
      encodable dims.robot && encodable dims.source && encodable dims.date &&
      encodable dims.filename) := by
  have hlit : encodable (py "customer=") = true ∧ encodable (py "/customer_site=") = true ∧
      encodable (py "/robot=") = true ∧ encodable (py "/source=") = true ∧
      encodable (py "/date=") = true ∧ encodable (py "/") = true := by decide
  simp only [rebuildHiveKey, encodable_append, hlit, Bool.true_and, Bool.and_assoc]

/-- Stripping leading slashes leaves bindability alone. -/
theorem encodable_lstrip (s : PyStr) : encodable (lstrip s (cp '/')) = encodable s := by
  induction s with
  | nil => rfl
  | cons c s ih =>
      by_cases hc : c = cp '/'
      · subst hc
        have hslash : isSurrogate (cp '/') = false := by decide
        rw [lstrip_cons_self, ih]
        simp [encodable, hslash]
      · rw [lstrip_cons_of_ne hc]

example : parseHiveKey (rebuildHiveKey ⟨py "a", py "b", py "c", py "d", py "e", py "f.mcap"⟩) =
    some ⟨py "a", py "b", py "c", py "d", py "e", py "f.mcap"⟩ := by decide

end McapCatalog.KeyParse
