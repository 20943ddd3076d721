import McapCatalog.CarryForward
import McapCatalog.Daemon
import McapCatalog.PublishSafety

/-!
# What a process gives back

A process takes the writer lock, a connection, the tag socket and the producers, in this order, and every call in between can
raise.  Two `finally` give back what was taken, the inner one from the worker's loop on only.

* `Enters` — the process gets as far as the lock; `main_of_enters`, `main_of_not_enters` — what `main` is then, and otherwise;
* `GivenBack` — what is left of a process that returned;
* `triple_startUp`, `triple_startThreads`, `triple_tearDown`, `triple_serve` — the parts of `_locked_main`;
* `Stranded` — a call raised between the bind of the socket and its close, but for those that the inner `finally` covers;
* `main_exits` — **what is held at each end of a process.**
-/

namespace McapCatalog.Daemon

open McapCatalog.PyText McapCatalog.PyError McapCatalog.Storage McapCatalog.Connection McapCatalog.Tables
open McapCatalog.CatalogDb McapCatalog.Builder McapCatalog.Reconcile McapCatalog.Worker McapCatalog.Publish
open McapCatalog.SurvivingState McapCatalog.SurvivingState.Comp

/-- The process gets as far as the lock, and takes it. -/
structure Enters (args : Args) (c : Course) : Prop where
  usage : usageError args c.isDir = none
  client : args.source ≠ .localTree → c.halts .client = none
  refused : c.refused = none
  acquire : c.halts .acquire = none

/-- No clients are served, and nothing brings events. -/
structure Quiet (p : Process) : Prop where
  bound : p.bound = false
  timers : p.timers = false
  observer : p.observer = false
  drainer : p.drainer = false
  rescans : p.rescans = false

/-- Up to the tag socket: the lock is held, and nothing is started. -/
structure Starting (p : Process) : Prop extends Quiet p where
  locked : p.locked = true

/-- The calls that start the producers. -/
def producerCalls (args : Args) : List Call :=
  if args.noWatch then []
  else match args.source with
    | .s3 => [.sqsClient, .drain]
    | .gcs => []
    | .localTree => [.observe]

/-- The calls after the bind of the socket, up to the thread that serves it. -/
def serverCalls : List Call := [.listenSocket, .chmodSocket, .statSocket, .serveTags]

/-- The calls between the bind of the socket and the worker's loop. -/
def startCalls (args : Args) : List Call := serverCalls ++ producerCalls args ++ [.rescan, .signals]

/-- ... and those that close it. -/
def heldCalls (args : Args) : List Call := startCalls args ++ [.shutdown, .serverClose]

/-- The calls up to the bind go through. -/
def Binds (c : Course) : Prop := c.halts .clearSocket = none ∧ c.halts .bindSocket = none

/-- The socket is bound, unless there is none, and the lock is held. -/
structure Up (args : Args) (c : Course) (p : Process) : Prop where
  locked : p.locked = true
  socket : p.bound = given args.tagSocket
  bind : given args.tagSocket = true → Binds c

/-- The calls went through, if there is a socket. -/
def Passed (args : Args) (c : Course) (calls : List Call) : Prop :=
  given args.tagSocket = true → ∀ what ∈ calls, c.halts what = none

/-- A socket that was bound was not closed. -/
def LeftBound (args : Args) (c : Course) : Prop :=
  given args.tagSocket = true ∧ Binds c ∧ ∃ what ∈ heldCalls args, c.halts what ≠ none

/-- How the worker's part of a process ends that does not return. -/
def Ended (args : Args) (c : Course) (halt : Halt) (p : Process) : Prop :=
  p.locked = true ∧ (halt ≠ .crash → (p.bound = true ↔ LeftBound args c))

/-- The connection, the socket and the observer are given back; the threads end, and a timer is left only of an event that came
too late. -/
structure GivenBack (c : Course) (p : Process) : Prop where
  closed : p.conn = none
  bound : p.bound = false
  observer : p.observer = false
  timers : p.timers = true → c.lateEvent = true
  threads : p.drainer = true ∨ p.rescans = true → p.stopped = true

section Parts

variable {env : Env} {paths : Paths} {args : Args} {source : Source} {c : Course} {α : Type} {p : Process}

theorem triple_onDir {P : Process → Prop} (hP : ∀ p dir, P p → P { p with dir := dir }) (m : Publishing α) :
    Triple P (onDir m) (fun _ => P) (fun _ => P) := by
  intro p hp
  rw [onDir]
  cases (m p.dir).1 with
  | ok a => exact hP p _ hp
  | error halt => exact hP p _ hp

theorem triple_onConn {P : Process → Prop} (hP : ∀ p w, P p → P (p.working w)) (m : Py α) :
    Triple P (onConn m) (fun _ => P) (fun _ => P) := by
  intro p hp
  rw [onConn]
  cases p.conn with
  | none => exact hp
  | some w =>
      show Exit _ _ ((m w).1.mapError Halt.raised, p.working (m w).2)
      cases (m w).1 with
      | ok a => exact hP p _ hp
      | error e => exact hP p _ hp

/-- A call that leaves a property alone. -/
theorem triple_call {P : Process → Prop} {what : Call} {effect : Process → Process} (hP : ∀ p, P p → P (effect p)) :
    Triple P (call c what effect) (fun _ => P) (fun _ => P) :=
  Triple.step (fun p hp _ => hP p hp) fun _ _ hp _ => hp

theorem triple_openServed {P : Process → Prop} (hP : ∀ p conn dir, P p → P { p with conn := conn, dir := dir }) :
    Triple P (openServed c) (fun _ => P) (fun _ => P) := by
  intro p hp
  rw [openServed]
  cases c.halts .openDb with
  | some halt => exact hp
  | none =>
      cases p.dir.served.view with
      | absent => exact hP p _ _ hp
      | notADatabase => exact hp
      | content db => exact hP p _ p.dir hp
      | torn => exact hp

theorem Starting.moved (h : Starting p) (conn : Option World) (dir : Dir) : Starting { p with conn := conn, dir := dir } :=
  ⟨⟨h.bound, h.timers, h.observer, h.drainer, h.rescans⟩, h.locked⟩

theorem triple_closeServed {P : Process → Prop} (hP : ∀ p dir, P p → P { p with conn := none, dir := dir }) :
    Triple P (closeServed c) (fun _ p => P p ∧ p.conn = none) (fun _ => P) :=
  Triple.step (fun p hp _ => ⟨hP p _ hp, rfl⟩) fun _ _ hp _ => hp

/-- **The start**: nothing but the connection is taken, and none is kept by `--once`. -/
theorem triple_startUp : Triple (fun p => Starting p ∧ p.conn = none) (startUp env paths args source c)
    (fun goesOn p => Starting p ∧ (goesOn = true → args.once = false) ∧ (goesOn = false → p.conn = none))
    (fun _ => Starting) := by
  have hopened : ∀ goesOn, (goesOn = true → args.once = false) → goesOn = true →
      Triple Starting (pure goesOn : Running Bool)
        (fun goesOn p => Starting p ∧ (goesOn = true → args.once = false) ∧ (goesOn = false → p.conn = none))
        (fun _ => Starting) := by
    intro goesOn honce hgoes p hp
    exact ⟨hp, honce, fun h => by rw [hgoes] at h; cases h⟩
  have hconnect : Triple Starting (openServed c) (fun _ => Starting) (fun _ => Starting) :=
    triple_openServed fun p conn dir hp => hp.moved conn dir
  have hload : Triple Starting (loadServed c) (fun _ => Starting) (fun _ => Starting) :=
    triple_call fun p hp => hp.moved _ p.dir
  rw [startUp]
  refine triple_look.bind fun p => ?_
  split
  · have hpublish : Triple (fun s => p = s ∧ Starting s ∧ s.conn = none)
        (onDir (buildAndPublish paths c.publish (fullReconcile env source args.extractWorkers)))
        (fun _ p => Starting p ∧ p.conn = none) (fun _ => Starting) :=
      (triple_onDir (P := fun p => Starting p ∧ p.conn = none) (fun p dir hp => ⟨hp.1.moved p.conn dir, hp.2⟩) _).conseq
        (fun _ h => h.2) (fun _ _ h => h) fun _ _ h => h.1
    refine hpublish.bind fun _ => ?_
    split
    · exact fun s hs => ⟨hs.1, fun h => (by cases h), fun _ => hs.2⟩
    · rename_i honce
      refine Triple.bind (fun s hs => hconnect s hs.1) fun _ => hload.bind fun _ => ?_
      exact hopened true (fun _ => Bool.eq_false_iff.mpr honce) rfl
  · refine Triple.bind (fun s hs => hconnect s hs.2.1) fun _ => hload.bind fun _ => ?_
    have hreconcile : Triple Starting (reconcileServed env args source c) (fun _ => Starting) (fun _ => Starting) :=
      (triple_onConn (fun p w hp => hp.moved (some w) _) _).bind fun _ => triple_call fun p hp => hp
    refine hreconcile.bind fun _ => ?_
    split
    · refine (triple_closeServed fun p dir hp => hp.moved none dir).bind fun _ => ?_
      exact fun s hs => ⟨hs.1, fun h => (by cases h), fun _ => hs.2⟩
    · rename_i honce
      exact hopened true (fun _ => Bool.eq_false_iff.mpr honce) rfl

/-! ### The threads -/

/-- A call that ends the process while the socket may be bound. -/
theorem Up.ended (h : Up args c p) {what : Call} (hwhat : what ∈ heldCalls args) {halt : Halt}
    (hhalt : c.halts what = some halt) (e : Halt) : Ended args c e p := by
  refine ⟨h.locked, fun _ => ?_⟩
  rw [h.socket]
  refine ⟨fun hgiven => ⟨hgiven, h.bind hgiven, what, hwhat, ?_⟩, fun hleft => hleft.1⟩
  rw [hhalt]
  exact Option.some_ne_none halt

theorem Passed.snoc {calls : List Call} {what : Call} (h : Passed args c calls) (hnone : c.halts what = none) :
    Passed args c (calls ++ [what]) := fun hgiven =>
  List.forall_mem_append.mpr ⟨h hgiven, List.forall_mem_singleton.mpr hnone⟩

/-- One of these calls. -/
theorem triple_up {calls : List Call} {what : Call} (hwhat : what ∈ heldCalls args) {effect : Process → Process}
    (heffect : ∀ p, Up args c p → Up args c (effect p)) :
    Triple (fun p => Up args c p ∧ Passed args c calls) (call c what effect)
      (fun _ p => Up args c p ∧ Passed args c (calls ++ [what])) (Ended args c) :=
  Triple.step (fun p hp hnone => ⟨heffect p hp.1, hp.2.snoc hnone⟩) fun _ e hp hhalt => hp.1.ended hwhat hhalt e

/-- A call up to the bind that ends the process. -/
theorem Starting.ended (h : Starting p) (hnot : ¬Binds c) (e : Halt) : Ended args c e p := by
  refine ⟨h.locked, fun _ => ⟨fun hbound => ?_, fun hleft => absurd hleft.2.1 hnot⟩⟩
  rw [h.bound] at hbound
  cases hbound

theorem mem_heldCalls_server {what : Call} (h : what ∈ serverCalls) : what ∈ heldCalls args :=
  List.mem_append_left _ (List.mem_append_left _ (List.mem_append_left _ h))

/-- The constructor of the tag server. -/
theorem triple_makeTagServer (hgiven : given args.tagSocket = true) : Triple Starting (makeTagServer c)
    (fun _ p => Up args c p ∧ Passed args c [.listenSocket, .chmodSocket, .statSocket]) (Ended args c) := by
  have hclear : Triple Starting (call c .clearSocket id) (fun _ p => Starting p ∧ c.halts .clearSocket = none) (Ended args c) := by
    refine Triple.step (fun p hp hnone => ⟨hp, hnone⟩) fun p e hp hhalt => hp.ended (fun hbinds => ?_) e
    exact absurd (hhalt.symm.trans hbinds.1) (Option.some_ne_none e)
  have hbind : Triple (fun p => Starting p ∧ c.halts .clearSocket = none) (call c .bindSocket fun p => { p with bound := true })
      (fun _ p => Up args c p ∧ Passed args c []) (Ended args c) := by
    refine Triple.step (fun p hp hnone => ⟨⟨hp.1.locked, hgiven.symm, fun _ => ⟨hp.2, hnone⟩⟩, fun _ => ?_⟩)
      fun p e hp hhalt => hp.1.ended (fun hbinds => ?_) e
    · exact List.forall_mem_nil _
    · exact absurd (hhalt.symm.trans hbinds.2) (Option.some_ne_none e)
  rw [makeTagServer]
  refine hclear.bind fun _ => hbind.bind fun _ => ?_
  refine (triple_up (mem_heldCalls_server (show Call.listenSocket ∈ serverCalls by decide)) fun _ hp => hp).bind fun _ => ?_
  refine (triple_up (mem_heldCalls_server (show Call.chmodSocket ∈ serverCalls by decide)) fun _ hp => hp).bind fun _ => ?_
  exact triple_up (mem_heldCalls_server (show Call.statSocket ∈ serverCalls by decide)) fun _ hp => hp

/-- The tag socket. -/
theorem triple_startTagServer : Triple Starting (startTagServer args c)
    (fun _ p => Up args c p ∧ Passed args c serverCalls) (Ended args c) := by
  rw [startTagServer]
  cases hgiven : given args.tagSocket with
  | false =>
      intro p hp
      refine ⟨⟨hp.locked, ?_, fun h => ?_⟩, fun h => ?_⟩
      · rw [hp.bound, hgiven]
      · rw [hgiven] at h
        cases h
      · rw [hgiven] at h
        cases h
  | true =>
      refine (triple_makeTagServer hgiven).bind fun _ => ?_
      exact triple_up (mem_heldCalls_server (show Call.serveTags ∈ serverCalls by decide)) fun _ hp => hp

theorem mem_heldCalls {what : Call} (h : what ∈ producerCalls args) : what ∈ heldCalls args :=
  List.mem_append_left _ (List.mem_append_left _ (List.mem_append_right _ h))

/-- The producers. -/
theorem triple_watch : Triple (fun p => Up args c p ∧ Passed args c serverCalls) (watch args c)
    (fun _ p => Up args c p ∧ Passed args c (serverCalls ++ producerCalls args)) (Ended args c) := by
  have hmem : ∀ what ∈ producerCalls args, what ∈ heldCalls args := fun _ h => mem_heldCalls h
  rw [producerCalls] at hmem ⊢
  rw [watch]
  split
  · exact fun p hp => hp
  · rename_i hwatch
    rw [if_neg hwatch] at hmem
    rw [startProducer]
    cases hsource : args.source with
    | gcs => exact fun p hp => hp
    | s3 =>
        rw [hsource] at hmem
        refine (triple_up (hmem .sqsClient List.mem_cons_self) fun _ hp => hp).bind fun _ => ?_
        exact triple_up (hmem .drain (List.mem_cons_of_mem _ List.mem_cons_self)) fun p hp => ⟨hp.locked, hp.socket, hp.bind⟩
    | localTree =>
        rw [hsource] at hmem
        refine (triple_change (I := fun p => Up args c p ∧ Passed args c serverCalls)
          fun p hp => ⟨⟨hp.1.locked, hp.1.socket, hp.1.bind⟩, hp.2⟩).bind fun _ => ?_
        exact triple_up (hmem .observe List.mem_cons_self) fun p hp => ⟨hp.locked, hp.socket, hp.bind⟩

/-- **The threads.** -/
theorem triple_startThreads : Triple Starting (startThreads args c)
    (fun _ p => Up args c p ∧ Passed args c (startCalls args)) (Ended args c) := by
  have hrescan : Call.rescan ∈ heldCalls args := List.mem_append_left _ (List.mem_append_right _ List.mem_cons_self)
  have hsignals : Call.signals ∈ heldCalls args :=
    List.mem_append_left _ (List.mem_append_right _ (List.mem_cons_of_mem _ List.mem_cons_self))
  rw [startThreads]
  refine triple_startTagServer.bind fun _ => triple_watch.bind fun _ => ?_
  have hstart : Triple (fun p => Up args c p ∧ Passed args c (serverCalls ++ producerCalls args))
      (call c .rescan fun p => { p with rescans := true }) _ _ :=
    triple_up hrescan fun p hp => ⟨hp.locked, hp.socket, hp.bind⟩
  refine hstart.bind fun _ => ?_
  refine (triple_up hsignals fun p hp => hp).post fun _ p hp => ⟨hp.1, ?_⟩
  rw [startCalls]
  have hcalls := hp.2
  rwa [List.append_assoc] at hcalls

/-! ### The clean-up -/

/-- While the clean-up runs, after the socket was closed. -/
structure Down (args : Args) (c : Course) (p : Process) : Prop where
  locked : p.locked = true
  bound : p.bound = false
  passed : Passed args c (heldCalls args)
  stopped : p.stopped = true

theorem Down.ended (h : Down args c p) (e : Halt) : Ended args c e p := by
  refine ⟨h.locked, fun _ => ⟨fun hbound => ?_, fun hleft => ?_⟩⟩
  · rw [h.bound] at hbound
    cases hbound
  · obtain ⟨hgiven, _, what, hwhat, hhalt⟩ := hleft
    exact absurd (h.passed hgiven what hwhat) hhalt

/-- A call of the rest of the clean-up. -/
theorem triple_down {P Q : Process → Prop} {what : Call} {effect : Process → Process}
    (heffect : ∀ p, Down args c p → P p → Down args c (effect p) ∧ Q (effect p)) :
    Triple (fun p => Down args c p ∧ P p) (call c what effect) (fun _ p => Down args c p ∧ Q p) (Ended args c) :=
  Triple.step (fun p hp _ => heffect p hp.1 hp.2) fun _ e hp _ => hp.1.ended e

theorem triple_stopTagServer :
    Triple (fun p => (Up args c p ∧ Passed args c (startCalls args)) ∧ p.stopped = true) (stopTagServer c)
      (fun _ => Down args c) (Ended args c) := by
  have hshutdown : Call.shutdown ∈ heldCalls args := List.mem_append_right _ List.mem_cons_self
  have hclose : Call.serverClose ∈ heldCalls args :=
    List.mem_append_right _ (List.mem_cons_of_mem _ List.mem_cons_self)
  rw [stopTagServer]
  refine triple_look.bind fun p₀ => ?_
  split
  · have hstop : Triple (fun p => p₀ = p ∧ (Up args c p ∧ Passed args c (startCalls args)) ∧ p.stopped = true)
        (call c .shutdown id)
        (fun _ p => (Up args c p ∧ Passed args c (startCalls args ++ [.shutdown])) ∧ p.stopped = true) (Ended args c) :=
      Triple.step (fun p hp hnone => ⟨⟨hp.2.1.1, hp.2.1.2.snoc hnone⟩, hp.2.2⟩)
        fun p e hp hhalt => hp.2.1.1.ended hshutdown hhalt e
    refine hstop.bind fun _ => Triple.step (fun p hp hnone => ⟨hp.1.1.locked, rfl, ?_, hp.2⟩)
      fun p e hp hhalt => hp.1.1.ended hclose hhalt e
    have hcalls := hp.1.2.snoc hnone
    rwa [List.append_assoc] at hcalls
  · rename_i hbound
    rintro p ⟨rfl, ⟨hup, _⟩, hstopped⟩
    have hfalse : p₀.bound = false := Bool.eq_false_iff.mpr hbound
    refine ⟨hup.locked, hfalse, fun hgiven => ?_, hstopped⟩
    rw [hup.socket, hgiven] at hfalse
    cases hfalse

theorem triple_stopTimers : Triple (Down args c) (stopTimers c)
    (fun _ p => Down args c p ∧ (p.timers = true → c.lateEvent = true)) (Ended args c) := by
  rw [stopTimers]
  refine triple_look.bind fun p₀ => ?_
  split
  · refine Triple.step (fun p hp _ => ⟨⟨hp.2.locked, hp.2.bound, hp.2.passed, hp.2.stopped⟩, fun h => ?_⟩)
      fun p e hp _ => hp.2.ended e
    exact (Bool.and_eq_true_iff.mp h).1
  · rename_i htimers
    rintro p ⟨rfl, hdown⟩
    exact ⟨hdown, fun h => absurd h htimers⟩

theorem triple_stopObserver : Triple (fun p => Down args c p ∧ (p.timers = true → c.lateEvent = true)) (stopObserver c)
    (fun _ p => Down args c p ∧ (p.timers = true → c.lateEvent = true) ∧ p.observer = false) (Ended args c) := by
  rw [stopObserver]
  refine triple_look.bind fun p₀ => ?_
  split
  · have hstop : Triple (fun p => p₀ = p ∧ Down args c p ∧ (p.timers = true → c.lateEvent = true))
        (call c .stopObserver id) (fun _ p => Down args c p ∧ (p.timers = true → c.lateEvent = true)) (Ended args c) :=
      Triple.step (fun p hp _ => hp.2) fun p e hp _ => hp.2.1.ended e
    refine hstop.bind fun _ => triple_down fun p hp htimers => ⟨⟨hp.locked, hp.bound, hp.passed, hp.stopped⟩, htimers, rfl⟩
  · rename_i hobserver
    rintro p ⟨rfl, hdown, htimers⟩
    exact ⟨hdown, htimers, Bool.eq_false_iff.mpr hobserver⟩

/-- **The clean-up.** -/
theorem triple_tearDown : Triple (fun p => Up args c p ∧ Passed args c (startCalls args)) (tearDown c)
    (fun _ p => Down args c p ∧ GivenBack c p) (Ended args c) := by
  rw [tearDown]
  refine (triple_change (I := fun p => (Up args c p ∧ Passed args c (startCalls args)) ∧ p.stopped = true)
    fun p hp => ⟨⟨⟨hp.1.locked, hp.1.socket, hp.1.bind⟩, hp.2⟩, rfl⟩).bind fun _ => ?_
  refine triple_stopTagServer.bind fun _ => triple_stopTimers.bind fun _ => triple_stopObserver.bind fun _ => ?_
  exact triple_down fun p hp h =>
    ⟨⟨hp.locked, hp.bound, hp.passed, hp.stopped⟩, rfl, hp.bound, h.2, h.1, fun _ => hp.stopped⟩

/-- **The worker's part of a process.** -/
theorem triple_serve : Triple Starting (serve env args source c)
    (fun code p => code = 0 ∧ Down args c p ∧ GivenBack c p) (Ended args c) := by
  rw [serve]
  refine triple_startThreads.bind fun _ => ?_
  have hwork : Triple (fun p => Up args c p ∧ Passed args c (startCalls args))
      (onConn (workerLoop env source args.extractWorkers c.items) >>= fun _ => call c .work id)
      (fun _ p => Up args c p ∧ Passed args c (startCalls args))
      (fun _ p => Up args c p ∧ Passed args c (startCalls args)) :=
    (triple_onConn (fun p w hp => ⟨⟨hp.1.locked, hp.1.socket, hp.1.bind⟩, hp.2⟩) _).bind fun _ => triple_call fun p hp => hp
  refine Triple.bind (Q := fun _ p => Down args c p ∧ GivenBack c p) ?_ fun _ p hp => ⟨rfl, hp⟩
  refine hwork.ensuring (fun _ => triple_tearDown) (fun e _ => ?_) fun e p hcrash hp => ?_
  · exact triple_tearDown.post fun _ p hp => hp.1.ended e
  · refine ⟨hp.1.locked, fun hne => absurd ?_ hne⟩
    exact of_decide_eq_true hcrash

/-! ### The whole process -/

theorem Starting.quiet_once (h : Starting p) : args.once = true → Quiet p := fun _ => h.toQuiet

/-- The start returns, and the process goes on to serve. -/
def GoesOn (env : Env) (paths : Paths) (args : Args) (source : Source) (c : Course) (p : Process) : Prop :=
  ∃ p₁, startUp env paths args source c p = (.ok true, p₁)

/-- **`_locked_main`.** -/
theorem lockedMain_exits (hp : Starting p) (hconn : p.conn = none) {out : Except Halt ℕ} {p' : Process}
    (h : lockedMain env paths args source c p = (out, p')) :
    p'.locked = true ∧ (args.once = true → Quiet p') ∧ (∀ code, out = .ok code → code = 0 ∧ GivenBack c p') ∧
      (out ≠ .error .crash → (p'.bound = true ↔ GoesOn env paths args source c p ∧ LeftBound args c)) := by
  have hstart := (triple_startUp : Triple _ (startUp env paths args source c) _ _) p ⟨hp, hconn⟩
  have hunbound : ∀ {p' : Process} {P : Prop}, Starting p' → ¬P → (p'.bound = true ↔ P) := fun hp' hnot =>
    iff_of_false (fun hbound => by rw [hp'.bound] at hbound; cases hbound) hnot
  rw [lockedMain] at h
  rcases hrun : startUp env paths args source c p with ⟨started, p₁⟩
  have hgoes : ∀ {p₂ : Process}, startUp env paths args source c p = (.ok true, p₂) → started = .ok true := by
    intro p₂ h₂
    rw [hrun] at h₂
    exact (Prod.ext_iff.mp h₂).1
  rw [hrun] at hstart
  cases started with
  | error halt =>
      rw [bind_of_error hrun] at h
      cases h
      refine ⟨hstart.locked, hstart.quiet_once, fun code hcode => (by cases hcode), fun _ => hunbound hstart fun hleft => ?_⟩
      obtain ⟨p₂, h₂⟩ := hleft.1
      cases hgoes h₂
  | ok goesOn =>
      rw [bind_of_ok hrun] at h
      obtain ⟨hstarting, honce, hclosed⟩ := hstart
      cases goesOn with
      | false =>
          cases h
          refine ⟨hstarting.locked, hstarting.quiet_once, fun code hcode => ?_, fun _ => hunbound hstarting fun hleft => ?_⟩
          · cases hcode
            refine ⟨rfl, hclosed rfl, hstarting.bound, hstarting.observer, fun htimers => ?_, fun hthreads => ?_⟩
            · rw [hstarting.timers] at htimers
              cases htimers
            · rw [hstarting.drainer, hstarting.rescans] at hthreads
              rcases hthreads with hthread | hthread <;> cases hthread
          · obtain ⟨p₂, h₂⟩ := hleft.1
            cases hgoes h₂
      | true =>
          have hnever : args.once = true → Quiet p' := fun h₁ => by
            rw [honce rfl] at h₁
            cases h₁
          have hserve := (triple_serve : Triple Starting (serve env args source c) _ _) p₁ hstarting
          rw [show serve env args source c p₁ = (out, p') from h] at hserve
          have hgoesOn : GoesOn env paths args source c p := ⟨p₁, hrun⟩
          cases out with
          | ok code =>
              obtain ⟨rfl, hdown, hback⟩ := hserve
              refine ⟨hdown.locked, hnever, fun code hcode => ?_, fun hne => ?_⟩
              · cases hcode
                exact ⟨rfl, hback⟩
              · rw [(hdown.ended (.raised notADatabaseError)).2 (fun hcrash => by cases hcrash)]
                exact ⟨fun hleft => ⟨hgoesOn, hleft⟩, And.right⟩
          | error halt =>
              refine ⟨hserve.1, hnever, fun code hcode => (by cases hcode), fun hne => ?_⟩
              rw [hserve.2 fun hcrash => hne (congrArg Except.error hcrash)]
              exact ⟨fun hleft => ⟨hgoesOn, hleft⟩, And.right⟩

theorem makeSource_cases (args : Args) (c : Course) (p : Process) :
    (makeSource args c p = (.ok (), p) ∧ (args.source ≠ .localTree → c.halts .client = none)) ∨
      ∃ halt, makeSource args c p = (.error halt, p) ∧ args.source ≠ .localTree ∧ c.halts .client = some halt := by
  rw [makeSource]
  split
  · rename_i hlocal
    exact Or.inl ⟨rfl, fun hne => absurd hlocal hne⟩
  · rename_i hremote
    rw [call]
    cases hclient : c.halts .client with
    | none => exact Or.inl ⟨rfl, fun _ => rfl⟩
    | some halt => exact Or.inr ⟨halt, rfl, hremote, rfl⟩

/-- A process that gets as far as the lock. -/
theorem main_of_enters (h : Enters args c) (p : Process) : main env paths args source c p =
    ensuring isCrash (lockedMain env paths args source c) (call c .release fun p => { p with locked := false })
      { p with locked := true } := by
  have hlock : call c .acquire (fun p => { p with locked := true }) p = (.ok (), { p with locked := true }) := by
    rw [call, h.acquire, step_of_none]
  rw [main, h.usage]
  show (makeSource args c >>= _) p = _
  rcases makeSource_cases args c p with ⟨hsource, _⟩ | ⟨halt, _, hremote, hclient⟩
  · rw [bind_of_ok hsource, h.refused]
    exact bind_of_ok hlock
  · rw [h.client hremote] at hclient
    cases hclient

/-- A process that does not: nothing but a message is left of it. -/
theorem main_of_not_enters (h : ¬Enters args c) {out : Except Halt ℕ} {p' : Process}
    (hrun : main env paths args source c p = (out, p')) : p' = { p with log := p'.log } ∧ out ≠ .ok 0 := by
  rw [main] at hrun
  cases husage : usageError args c.isDir with
  | some text =>
      rw [husage] at hrun
      cases hrun
      exact ⟨rfl, fun hzero => by cases hzero⟩
  | none =>
      rw [husage] at hrun
      change (makeSource args c >>= _) p = _ at hrun
      rcases makeSource_cases args c p with ⟨hsource, hclient⟩ | ⟨halt, hsource, _⟩
      · rw [bind_of_ok hsource] at hrun
        cases hrefused : c.refused with
        | some text =>
            rw [hrefused] at hrun
            cases hrun
            exact ⟨rfl, fun hzero => by cases hzero⟩
        | none =>
            rw [hrefused] at hrun
            cases hacquire : c.halts .acquire with
            | none => exact absurd ⟨husage, hclient, hrefused, hacquire⟩ h
            | some halt =>
                change (call c .acquire _ >>= _) p = _ at hrun
                rw [call, hacquire, bind_of_error (step_of_some _ p)] at hrun
                cases hrun
                exact ⟨rfl, fun hzero => by cases hzero⟩
      · rw [bind_of_error hsource] at hrun
        cases hrun
        exact ⟨rfl, fun hzero => by cases hzero⟩

/-- The process with the lock, before anything else. -/
def entered (dir : Dir) : Process := { Process.start dir with locked := true }

/-- **The outer `finally`**: it releases the lock, or raises, or is skipped. -/
theorem release_cases {m : Running α} {out out₁ : Except Halt α} {p₁ p' : Process} (hrun : m p = (out₁, p₁))
    (h : ensuring isCrash m (call c .release fun p => { p with locked := false }) p = (out, p')) :
    (out₁ = .error .crash ∧ out = out₁ ∧ p' = p₁) ∨ (out = out₁ ∧ p' = { p₁ with locked := false }) ∨
      ∃ halt, c.halts .release = some halt ∧ out = .error halt ∧ p' = p₁ ∧ out₁ ≠ .error .crash := by
  rw [ensuring, hrun, call] at h
  cases hrelease : c.halts .release with
  | none =>
      rw [hrelease] at h
      cases out₁ with
      | ok a =>
          cases h
          exact Or.inr (Or.inl ⟨rfl, rfl⟩)
      | error halt =>
          cases halt with
          | crash =>
              cases h
              exact Or.inl ⟨rfl, rfl, rfl⟩
          | raised e =>
              cases h
              exact Or.inr (Or.inl ⟨rfl, rfl⟩)
  | some halt' =>
      rw [hrelease] at h
      cases out₁ with
      | ok a =>
          cases h
          exact Or.inr (Or.inr ⟨halt', rfl, rfl, rfl, fun hcrash => by cases hcrash⟩)
      | error halt =>
          cases halt with
          | crash =>
              cases h
              exact Or.inl ⟨rfl, rfl, rfl⟩
          | raised e =>
              cases h
              exact Or.inr (Or.inr ⟨halt', rfl, rfl, rfl, fun hcrash => by cases hcrash⟩)

/-- **A socket is left bound**: the process went on to serve, and a call raised between the bind and the close that the inner
`finally` does not make up for. -/
structure Stranded (env : Env) (paths : Paths) (args : Args) (source : Source) (c : Course) (dir : Dir) : Prop where
  enters : Enters args c
  goesOn : GoesOn env paths args source c (entered dir)
  left : LeftBound args c

/-- **The ends of a process.**  One that returns has given everything back; one that an exception ended holds the lock only if
the exception is that of the release, and leaves the tag socket bound exactly if it is stranded; with `--once` nothing is ever
started; and one that did not get the lock has done nothing. -/
theorem main_exits {dir : Dir} {out : Except Halt ℕ} (h : main env paths args source c (Process.start dir) = (out, p)) :
    (∀ code, out = .ok code → p.locked = false ∧ GivenBack c p) ∧
      (∀ e, out = .error (.raised e) → p.locked = true → c.halts .release = some (.raised e)) ∧
      (out ≠ .error .crash → (p.bound = true ↔ Stranded env paths args source c dir)) ∧
      (args.once = true → Quiet p) ∧ (¬Enters args c → p = { Process.start dir with log := p.log } ∧ out ≠ .ok 0) := by
  by_cases henters : Enters args c
  · rw [main_of_enters henters] at h
    rcases hrun : lockedMain env paths args source c (entered dir) with ⟨out₁, p₁⟩
    obtain ⟨hlocked, honce, hback, hsocket⟩ := lockedMain_exits ⟨⟨rfl, rfl, rfl, rfl, rfl⟩, rfl⟩ rfl hrun
    have hstranded : out₁ ≠ .error .crash → (p₁.bound = true ↔ Stranded env paths args source c dir) := fun hne =>
      (hsocket hne).trans ⟨fun hleft => ⟨henters, hleft.1, hleft.2⟩, fun hleft => ⟨hleft.goesOn, hleft.left⟩⟩
    rcases release_cases hrun h with ⟨hcrash, rfl, rfl⟩ | ⟨rfl, rfl⟩ | ⟨halt, hrelease, rfl, rfl, hne₁⟩
    · rw [hcrash]
      exact ⟨fun code hcode => (by cases hcode), fun e he => (by cases he), fun hne => absurd rfl hne, honce,
        fun hnot => absurd henters hnot⟩
    · refine ⟨fun code hcode => ⟨rfl, ?_⟩, fun e _ hheld => (by cases hheld), hstranded, fun h₁ => ?_,
        fun hnot => absurd henters hnot⟩
      · obtain ⟨_, hclosed, hbound, hobserver, htimers, hthreads⟩ := hback code hcode
        exact ⟨hclosed, hbound, hobserver, htimers, hthreads⟩
      · obtain ⟨hbound, htimers, hobserver, hdrainer, hrescans⟩ := honce h₁
        exact ⟨hbound, htimers, hobserver, hdrainer, hrescans⟩
    · refine ⟨fun code hcode => (by cases hcode), fun e he _ => ?_, fun _ => hstranded hne₁, honce,
        fun hnot => absurd henters hnot⟩
      cases he
      exact hrelease
  · obtain ⟨hsame, hzero⟩ := main_of_not_enters henters h
    have hbound : p.bound = false := by rw [hsame]; rfl
    refine ⟨fun code _ => ?_, fun e _ hlocked => ?_, fun _ => iff_of_false (fun h₁ => ?_) fun hleft => henters hleft.enters,
      fun _ => ?_, fun _ => ⟨hsame, hzero⟩⟩
    · rw [hsame]
      exact ⟨rfl, rfl, rfl, rfl, fun htimers => (by cases htimers), fun hthreads => (by rcases hthreads with h | h <;> cases h)⟩
    · rw [hsame] at hlocked
      cases hlocked
    · rw [hbound] at h₁
      cases h₁
    · rw [hsame]
      exact ⟨rfl, rfl, rfl, rfl, rfl⟩

end Parts

/-! ### No region for the queue -/

/-- A daemon on a bucket, with a queue and a tag socket. -/
def s3Args : Args where
  source := .s3
  watchRoot := py "."
  s3Bucket := some (py "fleet")
  sqsUrl := some (py "https://sqs/fleet")
  gcsBucket := none
  tagSocket := some (py "/run/tags.sock")
  once := false
  rebuild := false
  noWatch := false
  extractWorkers := .one

/-- What `boto3.client("sqs")` raises. -/
def noRegionError : PyErr := .other (py "NoRegionError") (py "You must specify a region.")

/-- Everything else goes well. -/
def noRegion : Course where
  halts what := if what = .sqsClient then some (.raised noRegionError) else none
  isDir := true
  refused := none
  publish := calm
  faults := []
  clock := 0
  items := []
  lateEvent := false
  lastOne := true

/-- The process, from an empty directory to its end. -/
def regionless : Except Halt ℕ × Process :=
  main oneTopicEnv catalogPaths s3Args CarryForward.sampleSource noRegion (Process.start noDir)

/-- The lock is free again, and the socket is still bound. -/
theorem main_exits_noRegion : regionless.1 = .error (.raised noRegionError) ∧ regionless.2.locked = false ∧
    regionless.2.bound = true := by
  have hout : regionless.1 = .error (.raised noRegionError) := by decide +kernel
  have hstarted : (startUp oneTopicEnv catalogPaths s3Args CarryForward.sampleSource noRegion (entered noDir)).1 = .ok true := by
    decide +kernel
  have hgoes : GoesOn oneTopicEnv catalogPaths s3Args CarryForward.sampleSource noRegion (entered noDir) := by
    rcases hrun : startUp oneTopicEnv catalogPaths s3Args CarryForward.sampleSource noRegion (entered noDir) with ⟨started, p⟩
    rw [hrun] at hstarted
    exact ⟨p, by rw [hrun, show started = .ok true from hstarted]⟩
  have hstranded : Stranded oneTopicEnv catalogPaths s3Args CarryForward.sampleSource noRegion noDir :=
    ⟨⟨by decide +kernel, fun _ => rfl, rfl, rfl⟩, hgoes, by decide +kernel, ⟨rfl, rfl⟩, .sqsClient, by decide,
      fun hnone => by cases hnone⟩
  obtain ⟨_, hraised, hsocket, _⟩ := main_exits (show main oneTopicEnv catalogPaths s3Args CarryForward.sampleSource noRegion
    (Process.start noDir) = (regionless.1, regionless.2) from Prod.mk.eta.symm)
  refine ⟨hout, Bool.eq_false_iff.mpr fun hlocked => ?_, (hsocket ?_).mpr hstranded⟩
  · cases hraised _ hout hlocked
  · rw [hout]
    exact fun hcrash => by cases hcrash

end McapCatalog.Daemon
