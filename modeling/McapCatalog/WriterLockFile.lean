import McapCatalog.WriterLock
import McapCatalog.Library.LockFile
import Mathlib.Data.List.DropRight

/-!
# The writer lock's file

`acquire_writer_lock` down to its calls: open the file next to the database, `flock` it, empty it and write the process id
into it, or read who is there.  The lock is the kernel's and belongs to the file; the database is what a path leads to.

* `entryOf` — where a path leads, with `lockPath` next to it;
* `holder`, `message` — who the error names (`holder_record`);
* `custom` — the calls as steps of the lock files of `LockFile`;
* `oneWriter_iff` — **one writer for each database, exactly if builders of one database meet at one lock file and nobody
  unlinks that**; `oneWriter_of_plain` — so it is without links at the end of paths;
* `lock_acquired_iff`, `error_names` — no lock is stale, and the error is about another builder;
* `Joint`, `sockets_safe` — the sockets of `WriterLock` over locks taken file by file.
-/

namespace McapCatalog.WriterLockFile

open McapCatalog.PyText McapCatalog.LockFile
open McapCatalog.WriterLock (Config lockPath SocketsFollowDb KeepsSockets)

/-! ### Paths -/

/-- A path up to and with its last slash. -/
def dirPart (path : PyStr) : PyStr := path.rdropWhile fun c => c ≠ cp '/'

/-- The last name of a path. -/
def baseName (path : PyStr) : PyStr := path.rtakeWhile fun c => c ≠ cp '/'

/-- Where paths lead on a host: the directory that the head of a path names, and what the last name stands for there when
links are followed. -/
structure Names (Dir : Type) where
  folder : PyStr → Dir
  follow : Dir × PyStr → Dir × PyStr

/-- A path before links in its last name are followed. -/
def Names.plain {Dir : Type} (names : Names Dir) (path : PyStr) : Dir × PyStr :=
  (names.folder (dirPart path), baseName path)

/-- The directory entry that a path leads to. -/
def Names.entryOf {Dir : Type} (names : Names Dir) (path : PyStr) : Dir × PyStr := names.follow (names.plain path)

theorem noSlash_suffix : ∀ c ∈ (py ".writer.lock").reverse, decide (c ≠ cp '/') = true :=
  List.all_eq_true.mp (by decide)

/-- The lock file is in the folder of the database. -/
theorem dirPart_lockPath (db : PyStr) : dirPart (lockPath db) = dirPart db := by
  rw [dirPart, dirPart, List.rdropWhile, List.rdropWhile, lockPath, List.reverse_append,
    List.dropWhile_append_of_pos noSlash_suffix]

/-- Its name is that of the database with the suffix. -/
theorem baseName_lockPath (db : PyStr) : baseName (lockPath db) = baseName db ++ py ".writer.lock" := by
  rw [baseName, baseName, List.rtakeWhile, List.rtakeWhile, lockPath, List.reverse_append,
    List.takeWhile_append_of_pos noSlash_suffix, List.reverse_append, List.reverse_reverse]

/-- **The lock file of a database is found from where the database is**, as long as no link is involved. -/
theorem plain_lockPath {Dir : Type} (names : Names Dir) (db : PyStr) :
    names.plain (lockPath db) = ((names.plain db).1, (names.plain db).2 ++ py ".writer.lock") := by
  rw [Names.plain, dirPart_lockPath, baseName_lockPath]
  rfl

/-! ### What the file says -/

/-- `bytes.decode("ascii", "replace")`. -/
def decodeAscii (bytes : List UInt8) : PyStr :=
  bytes.map fun b => if b.toNat < 128 then Fin.ofNat 0x110000 b.toNat else Fin.ofNat 0x110000 0xFFFD

/-- `str.encode("ascii")` of ASCII text. -/
def encodeAscii (text : PyStr) : List UInt8 := text.map fun c => UInt8.ofNat c.val

/-- `c.isspace()` for the characters that ASCII text can have. -/
def isSpace (c : CodePoint) : Bool := (9 ≤ c.val && c.val ≤ 13) || (28 ≤ c.val && c.val ≤ 32)

/-- `s.strip()` of text decoded from ASCII. -/
def strip (s : PyStr) : PyStr := (s.dropWhile isSpace).rdropWhile isSpace

/-- `f"{os.getpid()}\n".encode("ascii")`. -/
def pidRecord (pid : ℕ) : List UInt8 := encodeAscii (decimal pid ++ py "\n")

/-- `holder` in the error, from what `os.pread` of 64 bytes gave, if it gave anything. -/
def holder (read : Option (List UInt8)) : PyStr :=
  match read with
  | none => py "unknown pid"
  | some bytes =>
      let data := strip (decodeAscii (bytes.take 64))
      if data = [] then py "unknown pid" else py "pid " ++ data

/-- The text of a `WriterLockError`; `repr` is Python's. -/
def message (repr : PyStr → PyStr) (holder lockPath : PyStr) : PyStr :=
  py "another catalog builder (" ++ holder ++ py ") already holds the writer lock " ++ repr lockPath ++
    py " — the catalog has exactly ONE writer per served DB; stop the other builder (or point --db elsewhere) and retry"

/-- What a refused `acquire_writer_lock` raises. -/
inductive Refusal where
  /-- `WriterLockError`, when `flock` says that the lock is taken. -/
  | writerLock (message : PyStr)
  /-- The error of `flock`. -/
  | osError

/-- The end of a refused `acquire_writer_lock`. -/
def refusal (repr : PyStr → PyStr) (db : PyStr) (busy : Bool) (read : Option (List UInt8)) : Refusal :=
  if busy then .writerLock (message repr (holder read) (lockPath db)) else .osError

theorem decodeAscii_encodeAscii {text : PyStr} (h : ∀ c ∈ text, c.val < 128) : decodeAscii (encodeAscii text) = text := by
  induction text with
  | nil => rfl
  | cons c text ih =>
      have hc : c.val < 128 := h c List.mem_cons_self
      have hbyte : (UInt8.ofNat c.val).toNat = c.val := by
        rw [UInt8.toNat_ofNat']
        exact Nat.mod_eq_of_lt (by omega)
      show (if (UInt8.ofNat c.val).toNat < 128 then Fin.ofNat 0x110000 (UInt8.ofNat c.val).toNat
          else Fin.ofNat 0x110000 0xFFFD) :: decodeAscii (encodeAscii text) = c :: text
      rw [hbyte, if_pos hc, ih fun d hd => h d (List.mem_cons_of_mem c hd)]
      congr 1
      exact Fin.ext (Nat.mod_eq_of_lt c.isLt)

theorem digit_lt {n : ℕ} {c : CodePoint} (h : c ∈ decimal n) : 48 ≤ c.val ∧ c.val ≤ 57 := by
  have hd := isDigit_of_mem_decimal h
  simp only [isDigit, Bool.and_eq_true, decide_eq_true_eq] at hd
  exact hd

theorem not_isSpace_of_mem_decimal {n : ℕ} {c : CodePoint} (h : c ∈ decimal n) : isSpace c = false := by
  have hd := digit_lt h
  simp only [isSpace, Bool.or_eq_false_iff, Bool.and_eq_false_iff, decide_eq_false_iff_not]
  omega

theorem decimal_ne_nil (n : ℕ) : decimal n ≠ [] := by
  intro h
  exact Nat.toDigits_ne_nil (List.map_eq_nil_iff.mp h)

/-- Stripping a numeral and its line end leaves the numeral. -/
theorem strip_decimal (n : ℕ) : strip (decimal n ++ py "\n") = decimal n := by
  have hhead : (decimal n ++ py "\n").dropWhile isSpace = decimal n ++ py "\n" := by
    cases hd : decimal n with
    | nil => exact absurd hd (decimal_ne_nil n)
    | cons c s =>
        rw [List.cons_append, List.dropWhile_cons_of_neg]
        rw [not_isSpace_of_mem_decimal (n := n) (by rw [hd]; exact List.mem_cons_self)]
        exact Bool.false_ne_true
  rw [strip, hhead, show py "\n" = [cp '\n'] from rfl, List.rdropWhile_concat_pos isSpace (decimal n) (cp '\n') (by decide)]
  refine List.rdropWhile_eq_self_iff.mpr fun hne => ?_
  rw [not_isSpace_of_mem_decimal (List.getLast_mem hne)]
  exact Bool.false_ne_true

/-- A process id has ten digits at most. -/
theorem decimal_length {n : ℕ} (h : n < 2 ^ 31) : (decimal n).length ≤ 10 := by
  rw [decimal, List.length_map]
  exact (Nat.length_toDigits_le_iff (by decide) (by decide)).mpr (by omega)

/-- **The error names the builder whose record it read.** -/
theorem holder_record {pid : ℕ} (h : pid < 2 ^ 31) : holder (some (pidRecord pid)) = py "pid " ++ decimal pid := by
  have hlen : (pidRecord pid).length ≤ 64 := by
    rw [pidRecord, encodeAscii, List.length_map, List.length_append]
    have := decimal_length h
    show (decimal pid).length + 1 ≤ 64
    omega
  have hascii : ∀ c ∈ decimal pid ++ py "\n", c.val < 128 := by
    intro c hc
    cases List.mem_append.mp hc with
    | inl hd => exact lt_of_le_of_lt (digit_lt hd).2 (by decide)
    | inr hn =>
        rw [List.mem_singleton.mp hn]
        decide
  show (let data := strip (decodeAscii ((pidRecord pid).take 64)); if data = [] then _ else _) = _
  rw [List.take_of_length_le hlen, pidRecord, decodeAscii_encodeAscii hascii, strip_decimal]
  exact if_neg (decimal_ne_nil pid)

/-! ### The calls of the builders -/

section Builders

variable {Pid Dir : Type} [DecidableEq Pid] [DecidableEq Dir]
variable (names : Names Dir) (cfg : Pid → Config) (pids : Pid → Fin (2 ^ 31))

/-- `acquire_writer_lock` and `release` of the builders on a host, when the holders of some lock files unlink them. -/
def custom (removes : Dir × PyStr → Prop) : Custom Pid (Dir × PyStr) (List UInt8) where
  place p := names.entryOf (lockPath (cfg p).db)
  blank := []
  record p := pidRecord (pids p).val
  removes := removes

/-- The source: no lock file is ever unlinked. -/
def source : Custom Pid (Dir × PyStr) (List UInt8) := custom names cfg pids fun _ => False

/-- The paths of two builders lead to one database. -/
def SameDb (p q : Pid) : Prop := names.entryOf (cfg p).db = names.entryOf (cfg q).db

/-- Builders of one database have one lock file. -/
def LocksFollowDbs : Prop :=
  ∀ p q, SameDb names cfg p q → names.entryOf (lockPath (cfg p).db) = names.entryOf (lockPath (cfg q).db)

/-- **One writer for each database, in every run, exactly if the builders of one database meet at one lock file and nobody
unlinks that.** -/
theorem oneWriter_iff (removes : Dir × PyStr → Prop) :
    Excludes (custom names cfg pids removes) (SameDb names cfg) ↔
      ∀ p q, p ≠ q → SameDb names cfg p q → names.entryOf (lockPath (cfg p).db) = names.entryOf (lockPath (cfg q).db) ∧
        ¬removes (names.entryOf (lockPath (cfg p).db)) :=
  excludes_iff (custom names cfg pids removes) (SameDb names cfg)

/-- The source has one writer for each database exactly if lock files follow databases. -/
theorem source_oneWriter_iff : Excludes (source names cfg pids) (SameDb names cfg) ↔ LocksFollowDbs names cfg := by
  refine (excludes_iff (source names cfg pids) (SameDb names cfg)).trans ?_
  constructor
  · intro h p q hsame
    by_cases hpq : p = q
    · rw [hpq]
    · exact (h p q hpq hsame).1
  · intro h p q _ hsame
    exact ⟨h p q hsame, fun hr => hr⟩

/-- **Without links at the end of the paths there is one writer for each database**, however the paths to it are written. -/
theorem oneWriter_of_plain (hdb : ∀ p, names.entryOf (cfg p).db = names.plain (cfg p).db)
    (hlock : ∀ p, names.entryOf (lockPath (cfg p).db) = names.plain (lockPath (cfg p).db)) :
    Excludes (source names cfg pids) (SameDb names cfg) := by
  refine (source_oneWriter_iff names cfg pids).mpr fun p q hsame => ?_
  have hplain : names.plain (cfg p).db = names.plain (cfg q).db := by
    rw [← hdb p, ← hdb q]
    exact hsame
  rw [hlock p, hlock q, plain_lockPath, plain_lockPath, hplain]

variable {names cfg pids}
variable {s₀ s : Host Pid (Dir × PyStr) (List UInt8)}

/-- **No lock is stale**: at any moment of a run, whatever became of the builders before, a builder can take the lock by
its own calls alone exactly if no builder with its lock file holds one. -/
theorem lock_acquired_iff (h₀ : Initial s₀) (hrun : Run (source names cfg pids) s₀ s) {p : Pid}
    (hp : s.phase p = .idle) :
    (∃ s' ino, Run (source names cfg pids) s s' ∧ Others p s s' ∧ s'.phase p = .settled ino true) ↔
      ∀ q, names.entryOf (lockPath (cfg q).db) = names.entryOf (lockPath (cfg p).db) → (s.phase q).holds = none :=
  (inv_of_run h₀ hrun).acquires_iff (fun _ hr => hr) hp

/-- A builder that has had the lock of a lock file by some moment of a run. -/
def HasHeld (names : Names Dir) (cfg : Pid → Config) (pids : Pid → Fin (2 ^ 31))
    (s₀ s : Host Pid (Dir × PyStr) (List UInt8)) (lock : Dir × PyStr) (q : Pid) : Prop :=
  names.entryOf (lockPath (cfg q).db) = lock ∧
    ∃ s', Run (source names cfg pids) s₀ s' ∧ Run (source names cfg pids) s' s ∧ (s'.phase q).holds ≠ none

/-- **The error is about another builder, and names one if it names anybody**: a `WriterLockError` means that another builder
with this lock file had the lock, and its message speaks of no record, of a record left over from before the run, or of the
process id of a builder that had the lock in the run. -/
theorem error_names (repr : PyStr → PyStr) (h₀ : Initial s₀) (hrun : Run (source names cfg pids) s₀ s) {p : Pid} {ino : ℕ}
    {busy : Bool} {seen : Option (List UInt8)} {text : PyStr} (hp : s.phase p = .told ino busy seen)
    (hraise : refusal repr (cfg p).db busy seen = .writerLock text) :
    (∃ q, q ≠ p ∧ HasHeld names cfg pids s₀ s (names.entryOf (lockPath (cfg p).db)) q) ∧
      ∃ who, text = message repr who (lockPath (cfg p).db) ∧
        (who = py "unknown pid" ∨
          (∃ i, s₀.entry (names.entryOf (lockPath (cfg p).db)) = some i ∧ who = holder (some (s₀.text i))) ∨
          ∃ q, HasHeld names cfg pids s₀ s (names.entryOf (lockPath (cfg p).db)) q ∧
            who = py "pid " ++ decimal (pids q).val) := by
  cases busy with
  | false => cases hraise
  | true =>
      cases hraise
      refine ⟨?_, holder seen, rfl, ?_⟩
      · obtain ⟨q, s', hbefore, hafter, hqp, hplace, hholds⟩ :=
          busy_of_run h₀ hrun (fun _ hr => hr) (show (s.phase p).busy = true by rw [hp]; rfl)
        exact ⟨q, hqp, hplace, s', hbefore, hafter, hholds⟩
      · cases seen with
        | none => exact Or.inl rfl
        | some text =>
            rcases told_explained h₀ hrun (fun _ hr => hr) hp with hblank | hleft | hrec
            · rw [hblank]
              exact Or.inl rfl
            · obtain ⟨i, hi, htext⟩ := hleft
              exact Or.inr (Or.inl ⟨i, hi, by rw [htext]⟩)
            · obtain ⟨q, s', hbefore, hafter, hplace, hholds, htext⟩ := hrec
              refine Or.inr (Or.inr ⟨q, ⟨hplace, s', hbefore, hafter, hholds⟩, ?_⟩)
              rw [htext]
              exact holder_record (pids q).isLt

/-- While the holder has its record in the file, that is who the error names. -/
theorem holder_of_settled (h₀ : Initial s₀) (hrun : Run (source names cfg pids) s₀ s) {q : Pid} {ino : ℕ}
    (hq : s.phase q = .settled ino true) : holder (some (s.text ino)) = py "pid " ++ decimal (pids q).val := by
  rw [(inv_of_run h₀ hrun).recorded q ino hq]
  exact holder_record (pids q).isLt

end Builders

/-- A link `/link.db` to `/a.db`. -/
def linkNames : Names Unit where
  folder _ := ()
  follow entry := if entry.2 = py "link.db" then ((), py "a.db") else entry

/-- A builder of `/a.db`, and one that gets there by the link. -/
def linkDbs : Bool → Config
  | true => ⟨py "/a.db", none⟩
  | false => ⟨py "/link.db", none⟩

/-- **Through a link, two builders write to one database at the same time.** -/
theorem linkDbs_not_oneWriter (pids : Bool → Fin (2 ^ 31)) :
    ¬Excludes (source linkNames linkDbs pids) (SameDb linkNames linkDbs) := by
  intro hex
  have hfollow := (source_oneWriter_iff linkNames linkDbs pids).mp hex true false (by unfold SameDb; decide)
  exact absurd hfollow (by decide)

/-- A host without links. -/
def plainNames : Names Unit := ⟨fun _ => (), id⟩

/-- Two builders of `/a.db`, with one tag socket. -/
def oneDb (_ : Bool) : Config := ⟨py "/a.db", some (py "/tag.sock")⟩

/-- Their process ids. -/
def twoPids (first : Bool) : Fin (2 ^ 31) := if first then 7 else 8

/-- A host on which nothing has happened. -/
def start : Host Bool (Unit × PyStr) (List UInt8) := vacant []

/-- The first builder has the lock. -/
def taken : Host Bool (Unit × PyStr) (List UInt8) :=
  ((start.creates ((), py "a.db.writer.lock") []).goes true (.opened 0)).grants 0 true |>.goes true (.held 0)

theorem run_taken : Run (source plainNames oneDb twoPids) start taken := run_takes (p := true) rfl (by decide) rfl

/-- The second one has been refused and has read an empty file. -/
def turnedAway : Host Bool (Unit × PyStr) (List UInt8) :=
  ((taken.goes false (.opened 0)).goes false (.refused 0 true)).goes false (.told 0 true (some []))

theorem run_turnedAway : Run (source plainNames oneDb twoPids) start turnedAway := by
  have hentry : taken.entry ((source plainNames oneDb twoPids).place false) = some 0 := by decide
  have hopened := run_taken.tail (HostStep.opens taken false rfl hentry)
  have hrefused := hopened.tail (HostStep.refuses (taken.goes false (.opened 0)) false (q := true) rfl rfl)
  exact hrefused.tail (HostStep.reads ((taken.goes false (.opened 0)).goes false (.refused 0 true)) false rfl)

/-- The first builder dies with the lock, and the second one takes it. -/
theorem lock_acquired_after_crash :
    ∃ s' ino, Run (source plainNames oneDb twoPids) ((taken.frees true).goes true .idle) s' ∧
      Others false ((taken.frees true).goes true .idle) s' ∧ s'.phase false = .settled ino true := by
  refine (lock_acquired_iff (initial_vacant []) (run_taken.tail (HostStep.ends taken true)) rfl).mpr fun q _ => ?_
  cases q <;> rfl

/-- The second builder's error is about another one. -/
theorem error_names_turnedAway :
    ∃ q, q ≠ false ∧ HasHeld plainNames oneDb twoPids start turnedAway (plainNames.entryOf (lockPath (oneDb false).db)) q := by
  have htold : turnedAway.phase false = .told 0 true (some []) := rfl
  have hraise : refusal id (oneDb false).db true (some []) =
      .writerLock (message id (py "unknown pid") (lockPath (oneDb false).db)) := rfl
  exact (error_names id (initial_vacant []) run_turnedAway htold hraise).1

/-! ### The sockets over the lock files -/

section Sockets

variable {Pid Dir : Type} [DecidableEq Pid] [DecidableEq Dir]

/-- The lock files of a host, and its sockets as `WriterLock` has them. -/
structure Both (Pid Dir : Type) where
  files : Host Pid (Dir × PyStr) (List UInt8)
  sockets : WriterLock.SocketState Pid

/-- A builder's steps on both: where `WriterLock` takes a lock from its table, here `flock` succeeds on an open file. -/
inductive Joint (names : Names Dir) (cfg : Pid → Config) (pids : Pid → Fin (2 ^ 31)) : Both Pid Dir → Both Pid Dir → Prop where
  /-- A call on a lock file by which nobody gets or loses a lock. -/
  | calls (b : Both Pid Dir) {files' : Host Pid (Dir × PyStr) (List UInt8)}
      (hs : HostStep (source names cfg pids) b.files files') (ho : files'.owner = b.files.owner) :
      Joint names cfg pids b ⟨files', b.sockets⟩
  /-- `flock` succeeds. -/
  | locks (b : Both Pid Dir) (p : Pid) {ino : ℕ} (hp : b.files.phase p = .opened ino) (ho : b.files.owner ino = none) :
      Joint names cfg pids b ⟨(b.files.grants ino p).goes p (.held ino), b.sockets.starts cfg p⟩
  /-- A builder that has its lock goes on with its socket. -/
  | serves (b : Both Pid Dir) {sockets' : WriterLock.SocketState Pid} (hs : WriterLock.SocketStep cfg b.sockets sockets')
      (hl : sockets'.locks = b.sockets.locks) : Joint names cfg pids b ⟨b.files, sockets'⟩
  /-- A builder that has its lock lets go of it, or exits, or dies. -/
  | ends (b : Both Pid Dir) (p : Pid) (hp : b.sockets.phase p ≠ .down) :
      Joint names cfg pids b ⟨(b.files.frees p).goes p .idle, b.sockets.dies cfg p⟩

variable {names : Names Dir} {cfg : Pid → Config} {pids : Pid → Fin (2 ^ 31)} {b b' b₀ : Both Pid Dir}

/-- The table of `WriterLock` is about the builders that hold the lock of their file. -/
structure Coupled (names : Names Dir) (cfg : Pid → Config) (pids : Pid → Fin (2 ^ 31)) (b : Both Pid Dir) : Prop where
  files : Inv (source names cfg pids) b.files
  sockets : WriterLock.Inv cfg b.sockets
  table : ∀ path p, b.sockets.locks path = some p ↔ lockPath (cfg p).db = path ∧ (b.files.phase p).holds ≠ none

omit [DecidableEq Pid] [DecidableEq Dir] in
theorem coupled_initial (hfiles : Initial b.files) (hsockets : WriterLock.Initial b.sockets) : Coupled names cfg pids b where
  files := hfiles.inv
  sockets := hsockets.inv
  table path p := by
    rw [hsockets.locks, hfiles.phase]
    exact ⟨fun h => (by cases h), fun h => absurd rfl h.2⟩

omit [DecidableEq Pid] [DecidableEq Dir] in
/-- Where the owners stay, the holders do. -/
theorem holds_of_owner {s s' : Host Pid (Dir × PyStr) (List UInt8)} {c : Custom Pid (Dir × PyStr) (List UInt8)} (h : Inv c s)
    (h' : Inv c s') (ho : s'.owner = s.owner) (p : Pid) : (s'.phase p).holds = (s.phase p).holds := by
  have hiff : ∀ ino, (s'.phase p).holds = some ino ↔ (s.phase p).holds = some ino := by
    intro ino
    rw [← h'.owner p ino, ho, h.owner p ino]
  exact Option.ext hiff

omit [DecidableEq Pid] [DecidableEq Dir] in
/-- A builder that can take the lock of its file has no lock in the table, and neither has anybody with its path. -/
theorem Coupled.free (h : Coupled names cfg pids b) {p : Pid} {ino : ℕ} (hp : b.files.phase p = .opened ino)
    (ho : b.files.owner ino = none) : b.sockets.locks (lockPath (cfg p).db) = none := by
  cases hlock : b.sockets.locks (lockPath (cfg p).db) with
  | none => rfl
  | some q =>
      obtain ⟨hpath, hholds⟩ := (h.table _ q).mp hlock
      have hfree := (h.files.free_iff (fun _ hr => hr) hp).mp ho q (by
        show names.entryOf (lockPath (cfg q).db) = names.entryOf (lockPath (cfg p).db)
        rw [hpath])
      exact absurd hfree hholds

omit [DecidableEq Pid] [DecidableEq Dir] in
theorem Coupled.down (h : Coupled names cfg pids b) {p : Pid} (hp : (b.files.phase p).holds = none) :
    b.sockets.phase p = .down := by
  by_contra hrunning
  exact ((h.table _ p).mp (h.sockets.locks p hrunning)).2 hp

/-- **A joint step is a step of `WriterLock`, or none**, and keeps the table right. -/
theorem Joint.refines (hs : Joint names cfg pids b b') (h : Coupled names cfg pids b) :
    Coupled names cfg pids b' ∧ (b'.sockets = b.sockets ∨ WriterLock.SocketStep cfg b.sockets b'.sockets) := by
  cases hs with
  | calls hs ho =>
      have hinv := hs.inv h.files
      refine ⟨⟨hinv, h.sockets, fun path p => ?_⟩, Or.inl rfl⟩
      show b.sockets.locks path = some p ↔ _
      rw [holds_of_owner h.files hinv ho p]
      exact h.table path p
  | serves hs hl =>
      refine ⟨⟨h.files, hs.inv h.sockets, fun path p => ?_⟩, Or.inr hs⟩
      rw [hl]
      exact h.table path p
  | locks p hp ho =>
      have hnone : (b.files.phase p).holds = none := by rw [hp]; rfl
      have hstep : WriterLock.SocketStep cfg b.sockets _ := .acquire b.sockets p (h.down hnone) (h.free hp ho)
      refine ⟨⟨(HostStep.locks b.files p hp ho).inv h.files, hstep.inv h.sockets, fun path q => ?_⟩, Or.inr hstep⟩
      show Function.update b.sockets.locks (lockPath (cfg p).db) (some p) path = some q ↔
        _ ∧ (((b.files.grants _ p).goes p (.held _)).phase q).holds ≠ none
      by_cases hqp : q = p
      · rw [hqp, Host.goes_self]
        by_cases hpath : path = lockPath (cfg p).db
        · rw [hpath, Function.update_self]
          exact ⟨fun _ => ⟨rfl, fun hn => by cases hn⟩, fun _ => rfl⟩
        · rw [Function.update_of_ne hpath, h.table path p, hnone]
          exact ⟨fun hold => absurd rfl hold.2, fun hnew => absurd hnew.1.symm hpath⟩
      · rw [Host.goes_of_ne _ _ hqp]
        by_cases hpath : path = lockPath (cfg p).db
        · rw [hpath, Function.update_self]
          refine ⟨fun heq => absurd (Option.some.inj heq).symm hqp, fun hold => ?_⟩
          have hlock := (h.table _ q).mpr hold
          rw [h.free hp ho] at hlock
          cases hlock
        · rw [Function.update_of_ne hpath]
          exact h.table path q
  | ends p hp =>
      have hstep : WriterLock.SocketStep cfg b.sockets _ := WriterLock.SocketStep.ends b.sockets p hp
      have hmine := h.sockets.locks p hp
      refine ⟨⟨(HostStep.ends b.files p).inv h.files, hstep.inv h.sockets, fun path q => ?_⟩, Or.inr hstep⟩
      show Function.update b.sockets.locks (lockPath (cfg p).db) none path = some q ↔
        _ ∧ (((b.files.frees p).goes p .idle).phase q).holds ≠ none
      by_cases hqp : q = p
      · rw [hqp, Host.goes_self]
        refine ⟨fun hlock => ?_, fun hnew => absurd rfl hnew.2⟩
        by_cases hpath : path = lockPath (cfg p).db
        · rw [hpath, Function.update_self] at hlock
          cases hlock
        · rw [Function.update_of_ne hpath] at hlock
          exact absurd ((h.table path p).mp hlock).1.symm hpath
      · rw [Host.goes_of_ne _ _ hqp]
        by_cases hpath : path = lockPath (cfg p).db
        · rw [hpath, Function.update_self]
          refine ⟨fun hlock => (by cases hlock), fun hold => ?_⟩
          have hlock := (h.table _ q).mpr hold
          rw [hmine] at hlock
          exact absurd (Option.some.inj hlock).symm hqp
        · rw [Function.update_of_ne hpath]
          exact h.table path q

/-- **Every run over lock files is a run of `WriterLock`.** -/
theorem refines_of_run (hfiles : Initial b₀.files) (hsockets : WriterLock.Initial b₀.sockets)
    (hrun : Relation.ReflTransGen (Joint names cfg pids) b₀ b) :
    Coupled names cfg pids b ∧ Relation.ReflTransGen (WriterLock.SocketStep cfg) b₀.sockets b.sockets := by
  induction hrun with
  | refl => exact ⟨coupled_initial hfiles hsockets, Relation.ReflTransGen.refl⟩
  | tail _ hs ih =>
      obtain ⟨hcoupled, hstep⟩ := hs.refines ih.1
      refine ⟨hcoupled, ?_⟩
      cases hstep with
      | inl hsame => rw [hsame]; exact ih.2
      | inr hstep => exact ih.2.tail hstep

/-- **The lock files refine the lock table**: what happens to the sockets in a run, with the locks taken by `flock` on the files
next to the databases, is a run of `WriterLock`; so no builder unlinks the socket of a live one, as long as builders with one
socket path share one database path. -/
theorem sockets_safe (hfiles : Initial b₀.files) (hsockets : WriterLock.Initial b₀.sockets)
    (hrun : Relation.ReflTransGen (Joint names cfg pids) b₀ b) (hs : Joint names cfg pids b b') :
    Relation.ReflTransGen (WriterLock.SocketStep cfg) b₀.sockets b'.sockets ∧
      (SocketsFollowDb cfg → KeepsSockets b.sockets b'.sockets) := by
  obtain ⟨hcoupled, hrun'⟩ := refines_of_run hfiles hsockets hrun
  cases (hs.refines hcoupled).2 with
  | inl hsame =>
      rw [hsame]
      exact ⟨hrun', fun _ _ _ _ _ _ => rfl⟩
  | inr hstep => exact ⟨hrun'.tail hstep, fun hf => hstep.keepsSockets (WriterLock.inv_of_run hsockets hrun') hf⟩

end Sockets

/-- The first builder has its lock, and starts on its socket. -/
def starting : Both Bool Unit := ⟨taken, WriterLock.fresh.starts oneDb true⟩

/-- It has bound its socket. -/
def bound : WriterLock.SocketState Bool :=
  ((starting.sockets.goes true .clear).puts (py "/tag.sock") (some (.socket 0 (some true)))).goes true .bound

/-- It serves. -/
def serving : Both Bool Unit := ⟨taken, bound.goes true (.serving 0)⟩

theorem run_serving : Relation.ReflTransGen (Joint plainNames oneDb twoPids) ⟨start, WriterLock.fresh⟩ serving := by
  have hcreates : Joint plainNames oneDb twoPids ⟨start, WriterLock.fresh⟩ _ :=
    Joint.calls ⟨start, WriterLock.fresh⟩ (HostStep.creates start true rfl (by decide)) rfl
  have hlocks : Joint plainNames oneDb twoPids
      ⟨(start.creates ((), py "a.db.writer.lock") []).goes true (.opened 0), WriterLock.fresh⟩ starting :=
    Joint.locks _ true (Host.goes_self ..) rfl
  have hpath : (oneDb true).tagSocket = some (py "/tag.sock") := rfl
  have hmisses : Joint plainNames oneDb twoPids starting ⟨taken, starting.sockets.goes true .clear⟩ :=
    Joint.serves starting (WriterLock.SocketStep.misses starting.sockets true rfl hpath rfl) rfl
  have hbinds : Joint plainNames oneDb twoPids ⟨taken, starting.sockets.goes true .clear⟩ ⟨taken, bound⟩ :=
    Joint.serves _ (WriterLock.SocketStep.bind _ true 0 rfl hpath rfl fun _ _ hn => by cases hn) rfl
  have hstands : bound.files (py "/tag.sock") = some (.socket 0 (some true)) := rfl
  have hserves : Joint plainNames oneDb twoPids ⟨taken, bound⟩ serving :=
    Joint.serves _ (WriterLock.SocketStep.capture bound true rfl hpath hstands) rfl
  exact ((((Relation.ReflTransGen.single hcreates).tail hlocks).tail hmisses).tail hbinds).tail hserves

/-- The first builder serves: whatever the next step is, its socket stays. -/
theorem sockets_safe_oneDb : WriterLock.HasBound serving.sockets true ∧
    serving.sockets.files (py "/tag.sock") = some (.socket 0 (some true)) ∧
    ∀ b', Joint plainNames oneDb twoPids serving b' → b'.sockets.files (py "/tag.sock") = some (.socket 0 (some true)) := by
  have hbound : WriterLock.HasBound serving.sockets true := Or.inr ⟨0, rfl⟩
  have hstands : serving.sockets.files (py "/tag.sock") = some (.socket 0 (some true)) := rfl
  refine ⟨hbound, hstands, fun b' hs => ?_⟩
  have hkeeps := (sockets_safe (initial_vacant []) WriterLock.initial_fresh run_serving hs).2 fun _ _ _ _ _ => rfl
  rw [hkeeps _ 0 true hstands hbound, hstands]

end McapCatalog.WriterLockFile
