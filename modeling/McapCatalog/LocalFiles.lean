import McapCatalog.Discovery
import McapCatalog.Library.PosixPath
import Mathlib.Data.List.Dedup

/-!
# The watched tree

`LocalSource` of `storage.py` down to the paths: the key of a file is its path below the watched root, the watcher reports
the path that it walked from the root as it was given, and the files are opened at the root joined with the key.

* `Watch`, `Reports` — a builder that watches a root from a working directory, and the paths that are reported to it;
* `eventKey`, `absPath`, `relKey` — the key of a reported path, the path at which a key is opened, and the listed key;
* `paths_agree` — **a reported path, the listed key and the opened path are of one file**, however the root is written;
* `waitForStable` — the polling of a file's size (`waitForStable_iff`);
* `Tree`, `treeSource` — the source over a tree of files, which finds a file that stays as it is stable (`stable_treeSource`).
-/

namespace McapCatalog.LocalFiles

open McapCatalog.PyText McapCatalog.PyError McapCatalog.McapSummary McapCatalog.Storage McapCatalog.KeyedRows
open McapCatalog.Discovery (basename isCatalogable)

/-! ### Paths -/

/-- A name that a file or a folder can have. -/
abbrev ProperName (name : PyStr) : Prop := PosixPath.Proper (cp '/') (cp '.') name

/-- What a watcher of this root reports of a file below it, by its names: the root as it was given, then the path of each
folder joined with the name of an entry. -/
structure Reports (root : PyStr) (reported : List PyStr → PyStr) : Prop where
  atRoot : reported [] = root
  entry : ∀ names name, reported (names ++ [name]) = PosixPath.join (cp '/') (reported names) name

/-- Where the builder runs, what it watches, and which paths the watcher reports; `repr` is Python's. -/
structure Watch where
  cwd : PyStr
  root : PyStr
  repr : PyStr → PyStr
  reported : List PyStr → PyStr
  absolute : cwd.head? = some (cp '/')
  reports : Reports root reported

/-- `LocalSource._abs`. -/
def Watch.absPath (watch : Watch) (key : PyStr) : PyStr := PosixPath.join (cp '/') watch.root key

/-- `LocalSource.event_key`; the watcher reports no empty path, for which `relpath` would raise. -/
def Watch.eventKey (watch : Watch) (payload : PyStr) : PyStr :=
  (PosixPath.relpath (cp '/') (cp '.') watch.cwd payload watch.root).getD []

/-- `str(p.relative_to(root))`. -/
def relKey (names : List PyStr) : PyStr := [cp '/'].intercalate names

section Paths

variable {watch : Watch} {names names' : List PyStr}

/-- The key of the path at which a key is opened. -/
theorem eventKey_relKey (watch : Watch) (hne : names ≠ []) (h : ∀ name ∈ names, ProperName name) :
    watch.eventKey (watch.absPath (relKey names)) = relKey names := by
  rw [Watch.eventKey]
  show (PosixPath.relpath _ _ watch.cwd (PosixPath.join (cp '/') watch.root ([cp '/'].intercalate names)) watch.root).getD [] = _
  rw [PosixPath.relpath_join watch.absolute watch.root hne h]
  rfl

theorem Reports.eq_walk {root : PyStr} {reported : List PyStr → PyStr} (h : Reports root reported) (names : List PyStr) :
    reported names = PosixPath.walk (cp '/') root names := by
  induction names using List.reverseRecOn with
  | nil => exact h.atRoot
  | append_singleton names name ih =>
      rw [h.entry, ih, PosixPath.walk, PosixPath.walk, List.foldl_append]
      rfl

/-- Joining one name after the other. -/
theorem reports_walk (root : PyStr) : Reports root (PosixPath.walk (cp '/') root) where
  atRoot := rfl
  entry names name := by
    rw [PosixPath.walk, PosixPath.walk, List.foldl_append]
    rfl

/-- The reported path is the one at which the key is opened. -/
theorem reported_eq_absPath (watch : Watch) (hne : names ≠ []) (h : ∀ name ∈ names, ProperName name) :
    watch.reported names = watch.absPath (relKey names) :=
  (watch.reports.eq_walk names).trans (PosixPath.walk_eq_join watch.root hne h)

/-- **A reported path, the listed key and the opened path are of one file**, however the root is written. -/
theorem paths_agree (watch : Watch) (hne : names ≠ []) (h : ∀ name ∈ names, ProperName name) :
    watch.eventKey (watch.reported names) = relKey names ∧ watch.absPath (relKey names) = watch.reported names := by
  have hjoin := reported_eq_absPath watch hne h
  refine ⟨?_, hjoin.symm⟩
  rw [hjoin, eventKey_relKey watch hne h]

/-- The root `./` seen from a folder. -/
def dotWatch : Watch := ⟨py "/home", py "./", id, PosixPath.walk (cp '/') (py "./"), rfl, reports_walk _⟩

/-- A file two levels below. -/
theorem paths_agree_dot : dotWatch.reported [py "a", py "b.mcap"] = py "./a/b.mcap" ∧
    dotWatch.eventKey (py "./a/b.mcap") = py "a/b.mcap" ∧ dotWatch.absPath (py "a/b.mcap") = py "./a/b.mcap" := by
  have hproper : ∀ name ∈ [py "a", py "b.mcap"], ProperName name := by
    intro name hname
    rcases List.mem_cons.mp hname with rfl | hname
    · exact ⟨by decide, by decide, by decide, by decide⟩
    · rw [List.mem_singleton.mp hname]
      exact ⟨by decide, by decide, by decide, by decide⟩
  exact ⟨by decide, paths_agree dotWatch (List.cons_ne_nil _ _) hproper⟩

/-- The path that the watcher reports of the file with a key. -/
def Watch.pathOf (watch : Watch) (key : PyStr) : PyStr := watch.reported (pathParts key)

theorem pathOf_relKey (watch : Watch) (hne : names ≠ []) (h : ∀ name ∈ names, ProperName name) :
    watch.pathOf (relKey names) = watch.absPath (relKey names) := by
  have hsplit : pathParts (relKey names) = names :=
    List.splitOn_intercalate _ (fun name hname => (h name hname).noSlash) hne
  rw [Watch.pathOf, hsplit, reported_eq_absPath watch hne h]

/-- Different files have different keys. -/
theorem relKey_injective (hne : names ≠ []) (hne' : names' ≠ []) (h : ∀ name ∈ names, ProperName name)
    (h' : ∀ name ∈ names', ProperName name) (heq : relKey names = relKey names') : names = names' := by
  have hsplit := congrArg (List.splitOn (cp '/')) heq
  rw [relKey, relKey, List.splitOn_intercalate _ (fun name hname => (h name hname).noSlash) hne,
    List.splitOn_intercalate _ (fun name hname => (h' name hname).noSlash) hne'] at hsplit
  exact hsplit

/-- A relative key. -/
theorem head_relKey (h : ∀ name ∈ names, ProperName name) : (relKey names).head? ≠ some (cp '/') :=
  PosixPath.head_intercalate h

/-- The watcher and the listing test the same name. -/
theorem isCatalogable_absPath (watch : Watch) {key : PyStr} (h : key.head? ≠ some (cp '/')) :
    isCatalogable (watch.absPath key) = isCatalogable key := by
  rw [isCatalogable, isCatalogable, Watch.absPath]
  rcases PosixPath.join_cases watch.root h with ⟨_, hjoin⟩ | ⟨front, _, hjoin⟩ | ⟨_, hjoin⟩
  · rw [hjoin]
  · rw [hjoin]
    exact congrArg isCatalogableName (Discovery.Arrival.basename_fullPath front key)
  · rw [hjoin]
    exact congrArg isCatalogableName (Discovery.Arrival.basename_fullPath watch.root key)

/-- The last part of a path is its end. -/
theorem basename_suffix (path : PyStr) : basename path <:+ path := by
  have hsuffix : ∀ parts : List PyStr, parts ≠ [] → parts.getLastD [] <:+ [cp '/'].intercalate parts := by
    intro parts
    induction parts with
    | nil => exact fun hne => absurd rfl hne
    | cons part parts ih =>
        intro _
        cases parts with
        | nil =>
            rw [List.intercalate_singleton]
            exact List.suffix_rfl
        | cons next parts =>
            rw [List.intercalate_cons_cons]
            exact (ih (List.cons_ne_nil _ _)).trans (List.suffix_append _ _)
  have hparts := hsuffix (pathParts path) (List.splitOnP_ne_nil _ _)
  rw [show [cp '/'].intercalate (pathParts path) = path from List.intercalate_splitOn _] at hparts
  exact hparts

/-- So a catalogable path does not end with a newline. -/
theorem getLast_of_isCatalogable {path : PyStr} (h : isCatalogable path = true) : path.getLast? = some (cp 'p') := by
  have hend : endsWith (basename path) (py ".mcap") = true := by
    rw [isCatalogable, isCatalogableName, Bool.and_eq_true, Bool.and_eq_true, Bool.and_eq_true] at h
    exact h.1.1.1
  obtain ⟨front, rfl⟩ := (List.isSuffixOf_iff_suffix.mp hend).trans (basename_suffix path)
  exact List.getLast?_append_of_ne_nil _ (by decide)

end Paths

/-! ### Stability -/

/-- The readings of `os.path.getsize` from the `i`-th on, until one raises. -/
def pollSizes (readings : ℕ → Option ℤ) : ℕ → ℕ → List ℤ → Option (List ℤ)
  | 0, _, sizes => some sizes
  | checks + 1, i, sizes =>
    match readings i with
    | none => none
    | some size => pollSizes readings checks (i + 1) (sizes ++ [size])

/-- `wait_for_stable`, from what its readings give and whether the file exists in the end. -/
def waitForStable (checks : ℕ) (readings : ℕ → Option ℤ) (stillThere : Bool) : Bool :=
  match pollSizes readings checks 0 [] with
  | none => false
  | some sizes => stillThere && decide (sizes.dedup.length = 1)

/-- What the readings come to, if none raises. -/
theorem pollSizes_eq_some_iff {readings : ℕ → Option ℤ} {checks i : ℕ} {sizes all : List ℤ} :
    pollSizes readings checks i sizes = some all ↔
      ∃ found, found.length = checks ∧ all = sizes ++ found ∧ ∀ j (h : j < found.length), readings (i + j) = some (found.get ⟨j, h⟩) := by
  induction checks generalizing i sizes with
  | zero =>
      constructor
      · intro hall
        cases hall
        exact ⟨[], rfl, (List.append_nil _).symm, fun j h => absurd h (Nat.not_lt_zero j)⟩
      · rintro ⟨found, hlen, hall, _⟩
        rw [hall, List.length_eq_zero_iff.mp hlen, List.append_nil]
        rfl
  | succ checks ih =>
      cases hread : readings i with
      | none =>
          rw [pollSizes, hread]
          refine ⟨fun hall => (by cases hall), ?_⟩
          rintro ⟨found, hlen, _, hfound⟩
          have hfirst := hfound 0 (by omega)
          rw [Nat.add_zero, hread] at hfirst
          cases hfirst
      | some size =>
          rw [pollSizes, hread]
          dsimp only
          rw [ih]
          constructor
          · rintro ⟨found, hlen, hall, hfound⟩
            refine ⟨size :: found, by rw [List.length_cons, hlen], by rw [hall, List.append_assoc, List.singleton_append],
              fun j h => ?_⟩
            cases j with
            | zero => exact hread
            | succ j =>
                rw [show i + (j + 1) = i + 1 + j by omega]
                exact hfound j (Nat.lt_of_succ_lt_succ h)
          · rintro ⟨found, hlen, hall, hfound⟩
            cases found with
            | nil => cases hlen
            | cons first found =>
                have hfirst := hfound 0 (Nat.zero_lt_succ _)
                rw [Nat.add_zero, hread] at hfirst
                cases Option.some.inj hfirst
                refine ⟨found, Nat.succ.inj hlen, by rw [hall, List.append_assoc]; rfl, fun j h => ?_⟩
                rw [show i + 1 + j = i + (j + 1) by omega]
                exact hfound (j + 1) (Nat.succ_lt_succ h)

/-- One size throughout. -/
theorem dedup_length_eq_one_iff {sizes : List ℤ} :
    sizes.dedup.length = 1 ↔ sizes ≠ [] ∧ ∃ size, ∀ s ∈ sizes, s = size := by
  rw [List.length_eq_one_iff]
  constructor
  · rintro ⟨size, hsize⟩
    refine ⟨?_, size, fun s hs => ?_⟩
    · rintro rfl
      cases hsize
    · rw [← List.mem_dedup, hsize] at hs
      exact List.mem_singleton.mp hs
  · rintro ⟨hne, size, hall⟩
    refine ⟨size, ?_⟩
    have hrep : sizes = List.replicate sizes.length size := List.eq_replicate_of_mem hall
    rw [hrep]
    exact List.replicate_dedup (fun hzero => hne (List.length_eq_zero_iff.mp hzero))

/-- **`wait_for_stable` is true exactly if it polls at all, each reading gives one and the same size, and the file is still
there.** -/
theorem waitForStable_iff {checks : ℕ} {readings : ℕ → Option ℤ} {stillThere : Bool} :
    waitForStable checks readings stillThere = true ↔
      0 < checks ∧ stillThere = true ∧ ∃ size, ∀ i < checks, readings i = some size := by
  rw [waitForStable]
  cases hpoll : pollSizes readings checks 0 [] with
  | none =>
      refine ⟨fun h => (by cases h), ?_⟩
      rintro ⟨_, _, size, hall⟩
      have hsome : pollSizes readings checks 0 [] = some (List.replicate checks size) := by
        refine pollSizes_eq_some_iff.mpr ⟨List.replicate checks size, List.length_replicate, rfl, fun j h => ?_⟩
        rw [List.length_replicate] at h
        rw [Nat.zero_add, hall j h, List.get_eq_getElem, List.getElem_replicate]
      rw [hpoll] at hsome
      cases hsome
  | some sizes =>
      obtain ⟨found, hlen, hall, hfound⟩ := pollSizes_eq_some_iff.mp hpoll
      rw [List.nil_append] at hall
      rw [hall]
      dsimp only
      rw [Bool.and_eq_true, decide_eq_true_iff, dedup_length_eq_one_iff]
      constructor
      · rintro ⟨hthere, hne, size, hsame⟩
        refine ⟨by rw [← hlen]; exact List.length_pos_iff.mpr hne, hthere, size, fun i hi => ?_⟩
        have hget := hfound i (by omega)
        rw [Nat.zero_add] at hget
        rw [hget, hsame _ (List.get_mem found _)]
      · rintro ⟨hpos, hthere, size, hsame⟩
        refine ⟨hthere, List.length_pos_iff.mp (by omega), size, fun s hs => ?_⟩
        obtain ⟨i, hi⟩ := List.mem_iff_get.mp hs
        have hget := hfound i.val i.isLt
        rw [Nat.zero_add, hsame i.val (by omega)] at hget
        rw [← hi]
        exact (Option.some.inj hget).symm

/-! ### The source over a tree -/

/-- A file: what `os.stat` says of it, what parsing it comes to, and what `extract_s3_key` finds in it. -/
structure LocalFile where
  size : ℤ
  mtimeNs : ℤ
  parse : Except PyErr (Option Summary)
  s3Key : Except PyErr (Option PyStr)

/-- The fingerprint of a file. -/
def LocalFile.stat (file : LocalFile) : Stat := ⟨file.size, localEtag file.size file.mtimeNs, file.mtimeNs⟩

/-- The files below the root, by key. -/
abbrev Tree : Type := Rows PyStr LocalFile

/-- How often `wait_for_stable` polls, and when the polls of an item are: none is before it. -/
structure Polling where
  checks : ℕ
  moment : ℕ → ℕ → ℕ
  later : ∀ t i, t ≤ moment t i

/-- What opening a file that is not there raises. -/
def fileNotFound (watch : Watch) (key : PyStr) : PyErr :=
  .other (py "FileNotFoundError") (py "[Errno 2] No such file or directory: " ++ watch.repr (watch.absPath key))

section Source

variable (watch : Watch) (polling : Polling) (tree : ℕ → Tree)

/-- The file system over the tree `tree t` at the moment `t`. -/
def treeFs : LocalFs where
  stat t key := ((tree t).lookup key).map fun file => (file.size, file.mtimeNs)
  openSummary t key :=
    match (tree t).lookup key with
    | none => .error (fileNotFound watch key)
    | some file => file.parse
  s3Key t key :=
    match (tree t).lookup key with
    | none => .error (fileNotFound watch key)
    | some file => file.s3Key
  files t := (tree t).keys
  stable t payload :=
    waitForStable polling.checks
      (fun i => ((tree (polling.moment t i)).lookup (watch.eventKey payload)).map LocalFile.size)
      ((tree (polling.moment t polling.checks)).lookup (watch.eventKey payload)).isSome

/-- `LocalSource` over it. -/
def treeSource : Source := { localSource (treeFs watch polling tree) with eventKey := watch.eventKey }

variable {watch polling tree} {t : ℕ} {key payload : PyStr} {file : LocalFile}

theorem stat_treeSource (watch : Watch) (polling : Polling) (tree : ℕ → Tree) (t : ℕ) (key : PyStr) :
    (treeSource watch polling tree).stat t key = .ok (((tree t).lookup key).map LocalFile.stat) := by
  show Except.ok ((((tree t).lookup key).map fun file => (file.size, file.mtimeNs)).map fun st => _) = _
  exact congrArg Except.ok (Option.map_map _ _ _)

theorem readSummary_treeSource (h : (tree t).lookup key = some file) (size : ℤ) :
    (treeSource watch polling tree).readSummary t key size = file.parse.bind summaryFromStream := by
  have hopen : (treeSource watch polling tree).openSummary t key size = file.parse := by
    rw [treeSource, localSource, treeFs]
    simp only [h]
  rw [Source.readSummary, hopen]
  cases file.parse <;> rfl

/-- **A file that stays as it is passes for stable**, unless it is not polled at all. -/
theorem stable_treeSource (hchecks : 0 < polling.checks)
    (h : ∀ t', t ≤ t' → (tree t').lookup (watch.eventKey payload) = some file) :
    (treeSource watch polling tree).waitForStable t payload = true := by
  refine waitForStable_iff.mpr ⟨hchecks, ?_, file.size, fun i _ => ?_⟩
  · rw [h _ (polling.later t _)]
    rfl
  · rw [h _ (polling.later t i)]
    rfl

end Source

end McapCatalog.LocalFiles
