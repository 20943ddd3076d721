import McapCatalog.PyText
import Mathlib.Logic.Relation
import Mathlib.Logic.Function.Basic

/-!
# The writer lock and the tag socket

`writer_lock.py` with the socket's life in `tag_ipc.py`.  A builder takes the lock of its database, removes a socket file
it finds at its socket path as stale, and binds its own; at shutdown it removes the socket file if that is still the one
it bound, and then lets go of the lock.  The lock is keyed by the database path and the socket has a path of its own.

* `Phase`, `SocketState`, `SocketStep` — builders on one host, each somewhere in its startup or shutdown; every call on the file
  system is a step of its own, and a builder can crash between any two;
* `HasBound`, `SocketsSafe` — no step unlinks the socket of a live builder;
* `Inv`, `SocketStep.inv` — running builders hold their locks, and a bound socket stands at the path of its builder;
* `socketsSafe_iff` — **sockets are safe exactly if builders with one socket path share one database path.**
-/

namespace McapCatalog.WriterLock

open McapCatalog.PyText

/-- `LOCK_SUFFIX`, appended to the path of the database. -/
def lockPath (db : PyStr) : PyStr := db ++ py ".writer.lock"

/-- A builder's `--db` and `--tag-socket`; without a socket path there is no endpoint. -/
structure Config where
  db : PyStr
  tagSocket : Option PyStr

/-- What stands at a path: a socket with its inode and the builder that bound it, or something else. -/
inductive Node (Pid : Type) where
  | socket (ino : ℕ) (boundBy : Option Pid)
  | other (ino : ℕ)

/-- `st_ino`. -/
def Node.ino {Pid : Type} : Node Pid → ℕ
  | .socket ino _ => ino
  | .other ino => ino

/-- Where a builder stands. -/
inductive Phase where
  /-- It is not running. -/
  | down
  /-- It holds the writer lock. -/
  | locked
  /-- `os.path.exists(socket_path)` was true. -/
  | found
  /-- `os.stat` said that it is a socket. -/
  | stale
  /-- Nothing stands at the socket path. -/
  | clear
  /-- The socket is bound. -/
  | bound
  /-- `_bound_ino` is captured. -/
  | serving (ino : ℕ)
  /-- `super().server_close()` has closed the socket. -/
  | closing (ino : ℕ)
  /-- The file at the path still has the inode. -/
  | matching
  /-- `server_close` is done. -/
  | closed
  deriving DecidableEq

/-- The host: which builder holds which lock, what stands at which path, where each builder is. -/
structure SocketState (Pid : Type) where
  locks : PyStr → Option Pid
  files : PyStr → Option (Node Pid)
  phase : Pid → Phase

variable {Pid : Type} [DecidableEq Pid]

namespace SocketState

/-- A builder moves on. -/
def goes (s : SocketState Pid) (p : Pid) (phase : Phase) : SocketState Pid :=
  { s with phase := Function.update s.phase p phase }

/-- A builder's process has the lock of its database. -/
def starts (s : SocketState Pid) (cfg : Pid → Config) (p : Pid) : SocketState Pid :=
  { s.goes p .locked with locks := Function.update s.locks (lockPath (cfg p).db) (some p) }

/-- A builder's process is gone, and with it its lock. -/
def dies (s : SocketState Pid) (cfg : Pid → Config) (p : Pid) : SocketState Pid :=
  { s.goes p .down with locks := Function.update s.locks (lockPath (cfg p).db) none }

/-- What stands at a path changes. -/
def puts (s : SocketState Pid) (path : PyStr) (node : Option (Node Pid)) : SocketState Pid :=
  { s with files := Function.update s.files path node }

theorem goes_self (s : SocketState Pid) (p : Pid) (phase : Phase) : (s.goes p phase).phase p = phase :=
  Function.update_self ..

theorem goes_of_ne (s : SocketState Pid) {p q : Pid} (phase : Phase) (h : q ≠ p) : (s.goes p phase).phase q = s.phase q :=
  Function.update_of_ne h ..

theorem starts_self (s : SocketState Pid) (cfg : Pid → Config) (p : Pid) : (s.starts cfg p).phase p = .locked :=
  Function.update_self ..

theorem starts_of_ne (s : SocketState Pid) (cfg : Pid → Config) {p q : Pid} (h : q ≠ p) :
    (s.starts cfg p).phase q = s.phase q :=
  Function.update_of_ne h ..

omit [DecidableEq Pid] in
theorem puts_self (s : SocketState Pid) (path : PyStr) (node : Option (Node Pid)) : (s.puts path node).files path = node :=
  Function.update_self ..

end SocketState

/-- One step of one builder.  A call that raises during startup or shutdown ends the process. -/
inductive SocketStep (cfg : Pid → Config) : SocketState Pid → SocketState Pid → Prop where
  /-- `acquire_writer_lock` succeeds. -/
  | acquire (s : SocketState Pid) (p : Pid) (hp : s.phase p = .down) (hl : s.locks (lockPath (cfg p).db) = none) :
      SocketStep cfg s (s.starts cfg p)
  /-- `os.path.exists(socket_path)` is true. -/
  | finds (s : SocketState Pid) (p : Pid) {path : PyStr} {node : Node Pid} (hp : s.phase p = .locked)
      (hs : (cfg p).tagSocket = some path) (hn : s.files path = some node) : SocketStep cfg s (s.goes p .found)
  /-- It is false. -/
  | misses (s : SocketState Pid) (p : Pid) {path : PyStr} (hp : s.phase p = .locked)
      (hs : (cfg p).tagSocket = some path) (hn : s.files path = none) : SocketStep cfg s (s.goes p .clear)
  /-- `stat.S_ISSOCK` holds. -/
  | isSocket (s : SocketState Pid) (p : Pid) {path : PyStr} {ino : ℕ} {boundBy : Option Pid} (hp : s.phase p = .found)
      (hs : (cfg p).tagSocket = some path) (hn : s.files path = some (.socket ino boundBy)) :
      SocketStep cfg s (s.goes p .stale)
  /-- `os.remove(socket_path)` of the stale socket. -/
  | removeStale (s : SocketState Pid) (p : Pid) {path : PyStr} {node : Node Pid} (hp : s.phase p = .stale)
      (hs : (cfg p).tagSocket = some path) (hn : s.files path = some node) :
      SocketStep cfg s ((s.puts path none).goes p .clear)
  /-- `super().__init__` binds, under an inode that is not in use. -/
  | bind (s : SocketState Pid) (p : Pid) {path : PyStr} (ino : ℕ) (hp : s.phase p = .clear)
      (hs : (cfg p).tagSocket = some path) (hn : s.files path = none)
      (hi : ∀ other node, s.files other = some node → node.ino ≠ ino) :
      SocketStep cfg s ((s.puts path (some (.socket ino (some p)))).goes p .bound)
  /-- `_bound_ino = os.stat(socket_path).st_ino`. -/
  | capture (s : SocketState Pid) (p : Pid) {path : PyStr} {node : Node Pid} (hp : s.phase p = .bound)
      (hs : (cfg p).tagSocket = some path) (hn : s.files path = some node) : SocketStep cfg s (s.goes p (.serving node.ino))
  /-- The listening socket is closed. -/
  | close (s : SocketState Pid) (p : Pid) {ino : ℕ} (hp : s.phase p = .serving ino) : SocketStep cfg s (s.goes p (.closing ino))
  /-- The file has the inode that was bound. -/
  | sameIno (s : SocketState Pid) (p : Pid) {path : PyStr} {node : Node Pid} {ino : ℕ} (hp : s.phase p = .closing ino)
      (hs : (cfg p).tagSocket = some path) (hn : s.files path = some node) (hi : node.ino = ino) :
      SocketStep cfg s (s.goes p .matching)
  /-- The file is gone, or is another one. -/
  | differs (s : SocketState Pid) (p : Pid) {path : PyStr} {ino : ℕ} (hp : s.phase p = .closing ino)
      (hs : (cfg p).tagSocket = some path) (hn : ∀ node, s.files path = some node → node.ino ≠ ino) :
      SocketStep cfg s (s.goes p .closed)
  /-- `os.remove(self.socket_path)`. -/
  | removeOwn (s : SocketState Pid) (p : Pid) {path : PyStr} (hp : s.phase p = .matching)
      (hs : (cfg p).tagSocket = some path) : SocketStep cfg s ((s.puts path none).goes p .closed)
  /-- The process ends: the lock is released after `server_close`, or the run had no endpoint, or a call raised, or the
  builder crashed. -/
  | ends (s : SocketState Pid) (p : Pid) (hp : s.phase p ≠ .down) : SocketStep cfg s (s.dies cfg p)

/-- A host on which no builder runs; socket files may be left over. -/
structure Initial (s : SocketState Pid) : Prop where
  locks : ∀ path, s.locks path = none
  phase : ∀ p, s.phase p = .down
  unbound : ∀ path ino boundBy, s.files path = some (.socket ino boundBy) → boundBy = none

/-- A live builder that has bound its socket and not closed it. -/
def HasBound (s : SocketState Pid) (p : Pid) : Prop := s.phase p = .bound ∨ ∃ ino, s.phase p = .serving ino

/-- A step leaves the socket of every live builder in place. -/
def KeepsSockets (s s' : SocketState Pid) : Prop :=
  ∀ path ino p, s.files path = some (.socket ino (some p)) → HasBound s p → s'.files path = s.files path

/-- **The safety of sockets**: in no run does a step unlink the socket of a live builder. -/
def SocketsSafe (cfg : Pid → Config) : Prop :=
  ∀ s₀ s s', Initial s₀ → Relation.ReflTransGen (SocketStep cfg) s₀ s → SocketStep cfg s s' → KeepsSockets s s'

/-- Builders with one socket path share one database path. -/
def SocketsFollowDb (cfg : Pid → Config) : Prop :=
  ∀ p q path, (cfg p).tagSocket = some path → (cfg q).tagSocket = some path → (cfg p).db = (cfg q).db

/-! ### What holds in every run -/

/-- Running builders hold their locks, and a socket stands at the path of the builder that bound it. -/
structure Inv (cfg : Pid → Config) (s : SocketState Pid) : Prop where
  locks : ∀ p, s.phase p ≠ .down → s.locks (lockPath (cfg p).db) = some p
  paths : ∀ path ino p, s.files path = some (.socket ino (some p)) → (cfg p).tagSocket = some path

variable {cfg : Pid → Config} {s s' : SocketState Pid}

omit [DecidableEq Pid] in
theorem Initial.inv (h : Initial s) : Inv cfg s where
  locks p hp := absurd (h.phase p) hp
  paths path ino p hn := by cases h.unbound path ino (some p) hn

/-- A running builder moves on to another phase. -/
theorem Inv.goes (h : Inv cfg s) {p : Pid} (hp : s.phase p ≠ .down) (phase : Phase) : Inv cfg (s.goes p phase) where
  locks q hq := by
    by_cases hqp : q = p
    · rw [hqp]
      exact h.locks p hp
    · refine h.locks q fun hdown => hq ?_
      show Function.update s.phase p phase q = .down
      rw [Function.update_of_ne hqp, hdown]
  paths := h.paths

omit [DecidableEq Pid] in
/-- Something else comes to stand at a path, bound by a builder with that path if it is a socket. -/
theorem Inv.puts (h : Inv cfg s) {path : PyStr} {node : Option (Node Pid)}
    (hnode : ∀ ino p, node = some (.socket ino (some p)) → (cfg p).tagSocket = some path) :
    Inv cfg (s.puts path node) where
  locks := h.locks
  paths path' ino p hn := by
    have hfiles : Function.update s.files path node path' = some (.socket ino (some p)) := hn
    by_cases heq : path' = path
    · rw [heq, Function.update_self] at hfiles
      rw [heq]
      exact hnode ino p hfiles
    · rw [Function.update_of_ne heq] at hfiles
      exact h.paths path' ino p hfiles

/-- **One step keeps the invariant.** -/
theorem SocketStep.inv (hs : SocketStep cfg s s') (h : Inv cfg s) : Inv cfg s' := by
  cases hs with
  | acquire p hp hl =>
      refine ⟨fun q hq => ?_, h.paths⟩
      show Function.update s.locks (lockPath (cfg p).db) (some p) (lockPath (cfg q).db) = some q
      by_cases hqp : q = p
      · rw [hqp, Function.update_self]
      · have hrunning : s.phase q ≠ .down := by
          intro hdown
          apply hq
          show Function.update s.phase p .locked q = .down
          rw [Function.update_of_ne hqp, hdown]
        have hlock := h.locks q hrunning
        have hne : lockPath (cfg q).db ≠ lockPath (cfg p).db := by
          intro heq
          rw [heq, hl] at hlock
          cases hlock
        rw [Function.update_of_ne hne, hlock]
  | finds p hp hs hn => exact h.goes (by rw [hp]; exact fun h => by cases h) _
  | misses p hp hs hn => exact h.goes (by rw [hp]; exact fun h => by cases h) _
  | isSocket p hp hs hn => exact h.goes (by rw [hp]; exact fun h => by cases h) _
  | removeStale p hp hs hn =>
      exact Inv.goes (h.puts fun ino q hq => by cases hq) (show s.phase p ≠ .down by rw [hp]; exact fun h => by cases h) _
  | bind p ino hp hs hn hi =>
      refine Inv.goes (h.puts fun ino' q hq => ?_) (show s.phase p ≠ .down by rw [hp]; exact fun h => by cases h) _
      cases hq
      exact hs
  | capture p hp hs hn => exact h.goes (by rw [hp]; exact fun h => by cases h) _
  | close p hp => exact h.goes (by rw [hp]; exact fun h => by cases h) _
  | sameIno p hp hs hn hi => exact h.goes (by rw [hp]; exact fun h => by cases h) _
  | differs p hp hs hn => exact h.goes (by rw [hp]; exact fun h => by cases h) _
  | removeOwn p hp hs =>
      exact Inv.goes (h.puts fun ino q hq => by cases hq) (show s.phase p ≠ .down by rw [hp]; exact fun h => by cases h) _
  | ends p hp =>
      refine ⟨fun q hq => ?_, h.paths⟩
      show Function.update s.locks (lockPath (cfg p).db) none (lockPath (cfg q).db) = some q
      have hqp : q ≠ p := by
        rintro rfl
        exact hq (Function.update_self ..)
      have hrunning : s.phase q ≠ .down := by
        intro hdown
        apply hq
        show Function.update s.phase p .down q = .down
        rw [Function.update_of_ne hqp, hdown]
      have hlock := h.locks q hrunning
      have hne : lockPath (cfg q).db ≠ lockPath (cfg p).db := by
        intro heq
        rw [heq, h.locks p hp] at hlock
        exact hqp (Option.some.inj hlock).symm
      rw [Function.update_of_ne hne, hlock]

theorem inv_of_run {s₀ : SocketState Pid} (h₀ : Initial s₀) (hrun : Relation.ReflTransGen (SocketStep cfg) s₀ s) :
    Inv cfg s := by
  induction hrun with
  | refl => exact h₀.inv
  | tail _ hs ih => exact hs.inv ih

/-! ### Sockets that follow the database -/

omit [DecidableEq Pid] in
/-- **The lock keeps a builder's hands off** a socket that another one has bound, when the two share their database. -/
theorem keeps_of_remove (h : Inv cfg s) (hf : SocketsFollowDb cfg) {p : Pid} {path : PyStr}
    (hs : (cfg p).tagSocket = some path) (hp : s.phase p ≠ .down) (hnot : ¬HasBound s p) {path' : PyStr} {ino : ℕ}
    {q : Pid} (hn : s.files path' = some (.socket ino (some q))) (hq : HasBound s q) : path' ≠ path := by
  rintro rfl
  have hrunning : s.phase q ≠ .down := by
    intro hdown
    cases hq with
    | inl hb => rw [hdown] at hb; cases hb
    | inr hb => obtain ⟨i, hb⟩ := hb; rw [hdown] at hb; cases hb
  have hlockp := h.locks p hp
  have hlockq := h.locks q hrunning
  rw [hf p q path' hs (h.paths path' ino q hn), hlockq] at hlockp
  exact hnot (Option.some.inj hlockp ▸ hq)

/-- **One step is safe** when sockets follow the database. -/
theorem SocketStep.keepsSockets (hs : SocketStep cfg s s') (h : Inv cfg s) (hf : SocketsFollowDb cfg) : KeepsSockets s s' := by
  intro path ino q hn hq
  cases hs with
  | removeStale p hp hs hn' =>
      refine Function.update_of_ne (keeps_of_remove h hf hs (by rw [hp]; exact fun h => by cases h) ?_ hn hq) ..
      intro hb
      cases hb with
      | inl hb => rw [hp] at hb; cases hb
      | inr hb => obtain ⟨i, hb⟩ := hb; rw [hp] at hb; cases hb
  | removeOwn p hp hs =>
      refine Function.update_of_ne (keeps_of_remove h hf hs (by rw [hp]; exact fun h => by cases h) ?_ hn hq) ..
      intro hb
      cases hb with
      | inl hb => rw [hp] at hb; cases hb
      | inr hb => obtain ⟨i, hb⟩ := hb; rw [hp] at hb; cases hb
  | bind p ino' hp hs hn' hi =>
      refine Function.update_of_ne ?_ ..
      rintro rfl
      rw [hn] at hn'
      cases hn'
  | acquire p hp hl => rfl
  | finds p hp hs hn' => rfl
  | misses p hp hs hn' => rfl
  | isSocket p hp hs hn' => rfl
  | capture p hp hs hn' => rfl
  | close p hp => rfl
  | sameIno p hp hs hn' hi => rfl
  | differs p hp hs hn' => rfl
  | ends p hp => rfl

/-! ### Sockets that do not -/

open SocketState

/-- A host without files or builders. -/
def fresh : SocketState Pid := ⟨fun _ => none, fun _ => none, fun _ => .down⟩

omit [DecidableEq Pid] in
theorem initial_fresh : Initial (fresh : SocketState Pid) := ⟨fun _ => rfl, fun _ => rfl, fun _ _ _ h => by cases h⟩

/-- One builder has started up and bound its socket. -/
def served (cfg : Pid → Config) (p : Pid) (path : PyStr) : SocketState Pid :=
  (((fresh.starts cfg p).goes p .clear).puts path (some (.socket 0 (some p)))).goes p .bound

theorem run_served {p : Pid} {path : PyStr} (hp : (cfg p).tagSocket = some path) :
    Relation.ReflTransGen (SocketStep cfg) fresh (served cfg p path) := by
  have hlocked : SocketStep cfg fresh (fresh.starts cfg p) := SocketStep.acquire fresh p rfl rfl
  have hclear := SocketStep.misses (fresh.starts cfg p) p (starts_self ..) hp rfl
  have hbound := SocketStep.bind ((fresh.starts cfg p).goes p .clear) p 0 (goes_self ..) hp rfl fun _ _ h => by cases h
  exact ((Relation.ReflTransGen.single hlocked).tail hclear).tail hbound

/-- **Two builders with one socket path and two databases**: the second removes the live socket of the first. -/
theorem not_socketsSafe {p q : Pid} {path : PyStr} (hp : (cfg p).tagSocket = some path)
    (hq : (cfg q).tagSocket = some path) (hdb : (cfg p).db ≠ (cfg q).db) : ¬SocketsSafe cfg := by
  intro hsafe
  have hpq : p ≠ q := fun h => hdb (by rw [h])
  have hlock : lockPath (cfg q).db ≠ lockPath (cfg p).db := fun h => hdb (List.append_cancel_right h).symm
  have hfile : (served cfg p path).files path = some (.socket 0 (some p)) := puts_self ..
  have hdown : (served cfg p path).phase q = .down :=
    ((goes_of_ne _ _ hpq.symm).trans (goes_of_ne _ _ hpq.symm)).trans (starts_of_ne _ _ hpq.symm)
  have hfree : (served cfg p path).locks (lockPath (cfg q).db) = none := by
    show Function.update (fun _ => none) (lockPath (cfg p).db) (some p) (lockPath (cfg q).db) = none
    rw [Function.update_of_ne hlock]
  -- the second builder's lock is another one, so nothing stops its startup
  have hlocked := SocketStep.acquire (served cfg p path) q hdown hfree
  have hfound := SocketStep.finds ((served cfg p path).starts cfg q) q (starts_self ..) hq hfile
  have hstale := SocketStep.isSocket (((served cfg p path).starts cfg q).goes q .found) q (goes_self ..) hq hfile
  have hremoved :=
    SocketStep.removeStale ((((served cfg p path).starts cfg q).goes q .found).goes q .stale) q (goes_self ..) hq hfile
  have hrun := (((run_served hp).tail hlocked).tail hfound).tail hstale
  have hbound : HasBound ((((served cfg p path).starts cfg q).goes q .found).goes q .stale) p :=
    Or.inl (((goes_of_ne _ _ hpq).trans (goes_of_ne _ _ hpq)).trans ((starts_of_ne _ _ hpq).trans (goes_self ..)))
  have hkept := hsafe _ _ _ initial_fresh hrun hremoved path 0 p hfile hbound
  have hgone : (none : Option (Node Pid)) = some (.socket 0 (some p)) := ((puts_self ..).symm.trans hkept).trans hfile
  cases hgone

/-- **Sockets are safe exactly if builders with one socket path share one database path.** -/
theorem socketsSafe_iff (cfg : Pid → Config) : SocketsSafe cfg ↔ SocketsFollowDb cfg := by
  constructor
  · intro hsafe p q path hp hq
    by_contra hdb
    exact not_socketsSafe hp hq hdb hsafe
  · intro hf s₀ s s' h₀ hrun hs
    exact hs.keepsSockets (inv_of_run h₀ hrun) hf

/-- Two builders that share a socket path and have a database each. -/
def twoDbs : Bool → Config
  | true => ⟨py "/a.db", some (py "/tag.sock")⟩
  | false => ⟨py "/b.db", some (py "/tag.sock")⟩

/-- The builder of `/b.db` starts while that of `/a.db` serves, and removes its socket. -/
theorem twoDbs_not_socketsSafe : ¬SocketsSafe twoDbs :=
  not_socketsSafe (p := true) (q := false) rfl rfl (by decide)

end McapCatalog.WriterLock
