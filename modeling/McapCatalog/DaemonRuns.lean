import McapCatalog.BuildIds
import McapCatalog.DaemonExits
import McapCatalog.Healing
import McapCatalog.TagLifetimes

/-!
# What processes leave at the served path

One process after the other works on the catalog of a path, each from what the one before it left, whether that returned, was
ended by an exception or was killed.

* `Footprint` — what a process can leave there: nothing new, what a publish left, or what was committed on its connection;
  `Brought` — what a `--once` that returns 0 leaves;
* `Serving`, `Aside` — the connection is on the served database, and the other calls leave both alone;
* `footprint_of_main` — a process, from its start to its end;
* `WholeCatalog`, `Intact` — a catalog that is well formed and was built to the end, and a path where a reader sees no other;
* `Spared`, `Restarted` — no publish gives up frames, and after an item that raised the process handles no other;
* `whole_of_processes` — **a reader never sees a half-built catalog.**
-/

namespace McapCatalog.Daemon

open McapCatalog.PyText McapCatalog.PyError McapCatalog.KeyParse McapCatalog.Storage McapCatalog.Tables
open McapCatalog.RowidTable McapCatalog.KeyedRows McapCatalog.Connection
open McapCatalog.CatalogDb McapCatalog.Builder McapCatalog.Reconcile McapCatalog.Worker McapCatalog.Publish
open McapCatalog.SurvivingState McapCatalog.SurvivingState.Comp
open Relation

/-! ### The footprint of a process -/

section Footprint

variable (env : Env) (paths : Paths) (args : Args) (source : Source) (c : Course) (dir : Dir)

/-- What the process builds, when it builds. -/
abbrev build : Py Tally := fullReconcile env source args.extractWorkers

/-- The process publishes a catalog, over the served one or where there is none. -/
def Publishes (tally : Tally) (dir₁ : Dir) : Prop :=
  (args.rebuild = true ∨ dir.served.main = none) ∧
    buildAndPublish paths c.publish (build env args source) dir = (.ok tally, dir₁)

/-- The process works on the served catalog as it is. -/
def InPlace (db : Db) : Prop := args.rebuild = false ∧ dir.served.view = .content db

/-- The world of a database that was opened, with its caches loaded. -/
def loaded (db : Db) : World := scripted (opened db c.clock) c.faults

/-- The worlds in which the worker's loop can start. -/
inductive Ready : World → Prop where
  | published {db : Db} {tally : Tally} {dir₁ : Dir} (h : Publishes env paths args source c dir tally dir₁)
      (hview : dir₁.served.view = .content db) : Ready (loaded c db)
  | reconciled {db : Db} {tally : Tally} {w : World} (h : InPlace args dir db)
      (hrun : build env args source (loaded c db) = (.ok tally, w)) : Ready w

/-- The worlds in which the connection can be left. -/
inductive Works : World → Prop where
  | ready {w : World} (h : Ready env paths args source c dir w) : Works w
  | opened {db : Db} (h : InPlace args dir db) : Works (loaded c db)
  | reconciled {db : Db} (h : InPlace args dir db) : Works (build env args source (loaded c db)).2
  | served {w : World} (h : Ready env paths args source c dir w) :
      Works (workerLoop env source args.extractWorkers c.items w).2

/-- **What a process leaves**: everything as it was, what a publish left, or what was committed on the connection. -/
inductive Footprint : Dir → Prop where
  | untouched : Footprint dir
  | published {out : Except Halt Tally} {dir' : Dir} (hneeded : args.rebuild = true ∨ dir.served.main = none)
      (hrun : buildAndPublish paths c.publish (build env args source) dir = (out, dir')) : Footprint dir'
  | worked {w : World} {dir' : Dir} (hworks : Works env paths args source c dir w)
      (hfiles : dir'.served.Hold w.conn.committed) : Footprint dir'

/-- What `--once` leaves when it returns 0. -/
inductive Brought : Dir → Prop where
  | published {tally : Tally} {dir₁ : Dir} (h : Publishes env paths args source c dir tally dir₁) : Brought dir₁
  | reconciled {db : Db} {tally : Tally} {w : World} {dir' : Dir} (h : InPlace args dir db)
      (hrun : build env args source (loaded c db) = (.ok tally, w)) (hfiles : dir'.served.Hold w.conn.committed) :
      Brought dir'

end Footprint

/-- The connection is open on the served database, and a reader sees what is committed on it. -/
structure Serving (p : Process) (w : World) : Prop where
  conn : p.conn = some w
  files : p.dir.served.Hold w.conn.committed

/-- The catalog and the connection to it are left alone. -/
def Aside (p p' : Process) : Prop := p'.conn = p.conn ∧ p'.dir = p.dir

section Files

variable {files : Files} {db db' : Db}

theorem hold_of_view (h : files.view = .content db) : files.Hold db := by
  refine ⟨?_, h⟩
  rw [Files.view] at h
  cases hmain : files.main with
  | none =>
      rw [hmain] at h
      cases h
  | some main =>
      rw [hmain] at h
      cases main with
      | garbage => cases h
      | db generation content => exact ⟨generation, content, rfl⟩

/-- What is committed on a connection is what a reader sees. -/
theorem hold_workedOn (h : files.Hold db) (db' : Db) : (workedOn files db').Hold db' := by
  obtain ⟨⟨generation, content, hmain⟩, _⟩ := h
  rw [workedOn, hmain]
  refine ⟨⟨generation, content, rfl⟩, ?_⟩
  show (if generation = generation then View.content db' else View.torn) = .content db'
  rw [if_pos rfl]

/-- A close moves it into the main file. -/
theorem hold_closed (h : files.Hold db) : ((files.checkpointed.remove .wal).remove .shm).Hold db := by
  obtain ⟨⟨generation, content, hmain⟩, hview⟩ := h
  have hchecked : files.checkpointed = ⟨some (.db generation db), some ⟨generation, none⟩, true⟩ := by
    rw [Files.checkpointed, hmain, hview]
  rw [hchecked]
  exact ⟨⟨generation, db, rfl⟩, rfl⟩

end Files

section Parts

variable {env : Env} {paths : Paths} {args : Args} {source : Source} {c : Course} {dir : Dir} {α : Type} {p : Process}
  {w : World}

theorem Ready.footprint (h : Ready env paths args source c dir w) (hs : Serving p w) :
    Footprint env paths args source c dir p.dir := .worked (.ready h) hs.files

theorem Brought.footprint {dir' : Dir} (h : Brought env paths args source c dir dir') :
    Footprint env paths args source c dir dir' := by
  cases h with
  | published h => exact .published h.1 h.2
  | reconciled h hrun hfiles =>
      refine .worked (.reconciled h) ?_
      rw [hrun]
      exact hfiles

/-! ### What the other calls leave alone -/

theorem Aside.refl (p : Process) : Aside p p := ⟨rfl, rfl⟩

theorem Aside.trans (a b d : Process) (h : Aside a b) (h' : Aside b d) : Aside a d := ⟨h'.1.trans h.1, h'.2.trans h.2⟩

theorem Serving.aside {p' : Process} (h : Serving p w) (hsame : Aside p p') : Serving p' w := by
  refine ⟨hsame.1.trans h.conn, ?_⟩
  rw [hsame.2]
  exact h.files

theorem within_call (what : Call) {effect : Process → Process} (h : ∀ p, Aside p (effect p)) :
    Within (fun _ => True) Aside (call c what effect) := within_step Aside.refl (c.halts what) h

theorem within_startThreads : Within (fun _ => True) Aside (startThreads args c) := by
  have hserver : Within (fun _ => True) Aside (startTagServer args c) := by
    rw [startTagServer]
    split
    · refine Within.bind Aside.trans ?_ fun _ => within_call .serveTags Aside.refl
      rw [makeTagServer]
      refine Within.bind Aside.trans (within_call .clearSocket Aside.refl) fun _ => ?_
      refine Within.bind Aside.trans (within_call .bindSocket fun _ => ⟨rfl, rfl⟩) fun _ => ?_
      refine Within.bind Aside.trans (within_call .listenSocket Aside.refl) fun _ => ?_
      exact Within.bind Aside.trans (within_call .chmodSocket Aside.refl) fun _ => within_call .statSocket Aside.refl
    · exact within_pure Aside.refl ()
  have hwatch : Within (fun _ => True) Aside (watch args c) := by
    rw [watch, startProducer]
    split
    · exact within_pure Aside.refl ()
    · cases args.source with
      | s3 =>
          refine Within.bind Aside.trans (within_call .sqsClient Aside.refl) fun _ => ?_
          exact within_call .drain fun _ => ⟨rfl, rfl⟩
      | gcs => exact within_pure Aside.refl ()
      | localTree =>
          refine Within.bind Aside.trans (fun p _ => ⟨trivial, rfl, rfl⟩) fun _ => ?_
          exact within_call .observe fun _ => ⟨rfl, rfl⟩
  refine hserver.bind Aside.trans fun _ => hwatch.bind Aside.trans fun _ => ?_
  refine Within.bind Aside.trans ?_ fun _ => within_call .signals Aside.refl
  exact within_call .rescan fun _ => ⟨rfl, rfl⟩

/-- The clean-up up to the close of the connection. -/
theorem within_stopAll : Within (fun _ => True) Aside (stopTagServer c >>= fun _ => stopTimers c >>= fun _ => stopObserver c) := by
  have hserver : Within (fun _ => True) Aside (stopTagServer c) := by
    refine Within.bind Aside.trans (within_look Aside.refl) fun p => ?_
    split
    · refine Within.bind Aside.trans (within_call .shutdown Aside.refl) fun _ => ?_
      exact within_call .serverClose fun _ => ⟨rfl, rfl⟩
    · exact within_pure Aside.refl ()
  have htimers : Within (fun _ => True) Aside (stopTimers c) := by
    refine Within.bind Aside.trans (within_look Aside.refl) fun p => ?_
    split
    · exact within_call .cancelTimers fun _ => ⟨rfl, rfl⟩
    · exact within_pure Aside.refl ()
  have hobserver : Within (fun _ => True) Aside (stopObserver c) := by
    refine Within.bind Aside.trans (within_look Aside.refl) fun p => ?_
    split
    · refine Within.bind Aside.trans (within_call .stopObserver Aside.refl) fun _ => ?_
      exact within_call .joinObserver fun _ => ⟨rfl, rfl⟩
    · exact within_pure Aside.refl ()
  exact hserver.bind Aside.trans fun _ => htimers.bind Aside.trans fun _ => hobserver

/-! ### Work on the connection -/

/-- Work on the connection. -/
theorem triple_onServing {P : World → Prop} (m : Py α) : Triple (fun p => ∃ w, P w ∧ Serving p w) (onConn m)
    (fun a p => ∃ w w', P w ∧ m w = (.ok a, w') ∧ Serving p w')
    (fun _ p => ∃ w e w', P w ∧ m w = (.error e, w') ∧ Serving p w') := by
  rintro p ⟨w, hw, hs⟩
  rcases hrun : m w with ⟨out, w'⟩
  have hserving : Serving (p.working w') w' := ⟨rfl, hold_workedOn hs.files w'.conn.committed⟩
  rw [onConn, hs.conn]
  show Exit _ _ ((m w).1.mapError Halt.raised, p.working (m w).2)
  rw [hrun]
  cases out with
  | ok a => exact ⟨w, w', hw, hrun, hserving⟩
  | error e => exact ⟨w, e, w', hw, hrun, hserving⟩

/-- A call beside the connection. -/
theorem triple_aside {m : Running α} (h : Within (fun _ => True) Aside m) (P : World → Prop) :
    Triple (fun p => ∃ w, P w ∧ Serving p w) m (fun _ p => ∃ w, P w ∧ Serving p w) (fun _ p => ∃ w, P w ∧ Serving p w) :=
  h.triple fun _ _ hsame hp => hp.imp fun _ hw => ⟨hw.1, hw.2.aside hsame⟩

/-- The close of the connection. -/
theorem triple_closeServing {P : World → Prop} : Triple (fun p => ∃ w, P w ∧ Serving p w) (closeServed c)
    (fun _ p => ∃ w, P w ∧ p.dir.served.Hold w.conn.committed) (fun _ p => ∃ w, P w ∧ p.dir.served.Hold w.conn.committed) := by
  refine Triple.step (fun p hp _ => ?_) fun p _ hp _ => hp.imp fun w hw => ⟨hw.1, hw.2.files⟩
  obtain ⟨w, hw, hs⟩ := hp
  refine ⟨w, hw, ?_⟩
  show (if c.lastOne then _ else _ : Dir).served.Hold _
  split
  · exact hold_closed hs.files
  · exact hs.files

/-- **An open that goes through** is of the database that a reader sees. -/
theorem triple_openContent {P : Dir → Prop} (hthere : ∀ dir, P dir → dir.served.view ≠ .absent) :
    Triple (fun p => P p.dir) (openServed c)
      (fun _ p => ∃ db, P p.dir ∧ p.dir.served.view = .content db ∧ p.conn = some (connected c db)) (fun _ p => P p.dir) := by
  intro p hp
  rw [openServed]
  cases c.halts .openDb with
  | some halt => exact hp
  | none =>
      cases hview : p.dir.served.view with
      | absent => exact absurd hview (hthere p.dir hp)
      | notADatabase => exact hp
      | content db => exact ⟨db, hp, hview, rfl⟩
      | torn => exact hp

theorem triple_loadContent {P : Dir → Prop} :
    Triple (fun p => ∃ db, P p.dir ∧ p.dir.served.view = .content db ∧ p.conn = some (connected c db)) (loadServed c)
      (fun _ p => ∃ db, P p.dir ∧ p.dir.served.view = .content db ∧ p.conn = some (loaded c db))
      (fun _ p => ∃ db, P p.dir ∧ p.dir.served.view = .content db) := by
  refine Triple.step (fun p hp _ => ?_) fun p _ hp _ => hp.imp fun db hdb => ⟨hdb.1, hdb.2.1⟩
  obtain ⟨db, hdir, hview, hconn⟩ := hp
  refine ⟨db, hdir, hview, ?_⟩
  show p.conn.map _ = _
  rw [hconn]
  rfl

/-! ### The start -/

theorem main_ne_none (h : dir.served.has .main = true) : dir.served.view ≠ .absent := by
  intro hview
  rw [Files.has] at h
  rw [Files.view] at hview
  cases hmain : dir.served.main with
  | none =>
      rw [hmain] at h
      cases h
  | some main =>
      rw [hmain] at hview
      cases main with
      | garbage => cases hview
      | db generation content =>
          simp only at hview
          split at hview
          · split at hview <;> cases hview
          · cases hview

/-- A publish that returns leaves a catalog. -/
theorem Publishes.content {tally : Tally} {dir₁ : Dir} (hview : dir.served.view ≠ .torn)
    (h : Publishes env paths args source c dir tally dir₁) : ∃ db, dir₁.served.view = .content db := by
  rcases buildAndPublish_cases h.2 with ⟨halt, hout, _⟩ | ⟨result, dir₂, hswap, hmain, hframes⟩
  · cases hout
  · obtain ⟨row, w, generation, _, _, hmain₁, hframes₁⟩ := swap_ok hview hswap
    exact ⟨_, (hframes hframes₁).view (hmain.trans hmain₁)⟩

/-- The catalog is brought up to date: it is open for the worker's loop, or `--once` is done. -/
def Started (env : Env) (paths : Paths) (args : Args) (source : Source) (c : Course) (dir : Dir) (goesOn : Bool)
    (p : Process) : Prop :=
  (goesOn = true → args.once = false ∧ ∃ w, Ready env paths args source c dir w ∧ Serving p w) ∧
    (goesOn = false → Brought env paths args source c dir p.dir)

/-- A start that published the catalog. -/
theorem triple_startPublished (hview : dir.served.view ≠ .torn) (hneeded : args.rebuild = true ∨ dir.served.main = none) :
    Triple (fun p => p.dir = dir)
      (onDir (buildAndPublish paths c.publish (build env args source)) >>= fun _ =>
        if args.once then pure false else openServed c >>= fun _ => loadServed c >>= fun _ => pure true)
      (Started env paths args source c dir) (fun _ p => Footprint env paths args source c dir p.dir) := by
  have hpublish : Triple (fun p => p.dir = dir) (onDir (buildAndPublish paths c.publish (build env args source)))
      (fun tally p => Publishes env paths args source c dir tally p.dir)
      (fun _ p => Footprint env paths args source c dir p.dir) := by
    rintro p rfl
    rcases hrun : buildAndPublish paths c.publish (build env args source) p.dir with ⟨out, dir₁⟩
    rw [onDir, hrun]
    cases out with
    | ok tally => exact ⟨hneeded, hrun⟩
    | error halt => exact .published hneeded hrun
  refine hpublish.bind fun tally => ?_
  split
  · exact fun p hp => ⟨fun h => (by cases h), fun _ => .published hp⟩
  · rename_i honce
    have hopen := triple_openContent (c := c) (P := Publishes env paths args source c dir tally) fun dir₁ hp => by
      obtain ⟨db, hcontent⟩ := hp.content hview
      rw [hcontent]
      exact fun h => by cases h
    refine (hopen.conseq (fun _ hp => hp) (fun _ _ hp => hp) fun _ _ hp => Footprint.published hp.1 hp.2).bind fun _ => ?_
    have hload : Triple _ (loadServed c) _ (fun _ p => Footprint env paths args source c dir p.dir) :=
      (triple_loadContent (P := Publishes env paths args source c dir tally)).conseq (fun _ hp => hp) (fun _ _ hp => hp)
        fun _ p hp => by
          obtain ⟨_, hp, _⟩ := hp
          exact Footprint.published hp.1 hp.2
    refine hload.bind fun _ => ?_
    rintro p ⟨db, hp, hcontent, hconn⟩
    exact ⟨fun _ => ⟨Bool.eq_false_iff.mpr honce, _, .published hp hcontent, hconn, hold_of_view hcontent⟩,
      fun h => (by cases h)⟩

/-- A start in place. -/
theorem triple_startInPlace (hplain : args.rebuild = false) (hmain : dir.served.has .main = true) :
    Triple (fun p => p.dir = dir)
      (openServed c >>= fun _ => loadServed c >>= fun _ => reconcileServed env args source c >>= fun _ =>
        if args.once then closeServed c >>= fun _ => pure false else pure true)
      (Started env paths args source c dir) (fun _ p => Footprint env paths args source c dir p.dir) := by
  have hopen := triple_openContent (c := c) (P := fun dir₁ => dir₁ = dir) fun dir₁ hp => by
    rw [hp]
    exact main_ne_none hmain
  have huntouched : ∀ {dir₁ : Dir}, dir₁ = dir → Footprint env paths args source c dir dir₁ := fun h => by
    rw [h]
    exact .untouched
  refine (hopen.conseq (fun _ hp => hp) (fun _ _ hp => hp) fun _ _ hp => huntouched hp).bind fun _ => ?_
  have hload : Triple _ (loadServed c) _ (fun _ p => Footprint env paths args source c dir p.dir) :=
    (triple_loadContent (P := fun dir₁ => dir₁ = dir)).conseq (fun _ hp => hp) (fun _ _ hp => hp) fun _ p hp => by
      obtain ⟨_, hp, _⟩ := hp
      exact huntouched hp
  refine hload.bind fun _ => ?_
  -- on the open catalog, before and after the reconcile
  let before : World → Prop := fun w => ∃ db, InPlace args dir db ∧ w = loaded c db
  let after : Process → Prop := fun p => ∃ w w' tally, before w ∧ build env args source w = (.ok tally, w') ∧ Serving p w'
  have hafter : ∀ p, after p → Footprint env paths args source c dir p.dir := by
    rintro p ⟨_, w', tally, ⟨db, hplace, rfl⟩, hrun, hs⟩
    exact (Ready.reconciled hplace hrun).footprint hs
  have hbuild : Triple (fun p => ∃ w, before w ∧ Serving p w) (onConn (build env args source)) (fun _ => after)
      (fun _ p => Footprint env paths args source c dir p.dir) := by
    refine (triple_onServing (build env args source)).conseq (fun _ hp => hp) ?_ ?_
    · rintro tally p ⟨w, w', hw, hrun, hs⟩
      exact ⟨w, w', tally, hw, hrun, hs⟩
    · rintro _ p ⟨_, e, w', ⟨db, hplace, rfl⟩, hrun, hs⟩
      refine .worked (.reconciled hplace) ?_
      rw [hrun]
      exact hs.files
  have hreconcile : Triple (fun p => ∃ w, before w ∧ Serving p w) (reconcileServed env args source c) (fun _ => after)
      (fun _ p => Footprint env paths args source c dir p.dir) :=
    hbuild.bind fun _ => Triple.step (fun _ hp _ => hp) fun p _ hp _ => hafter p hp
  refine Triple.bind (Q := fun _ => after) (hreconcile.conseq ?_ (fun _ _ hp => hp) fun _ _ hp => hp) fun _ => ?_
  · rintro p ⟨db, rfl, hcontent, hconn⟩
    exact ⟨_, ⟨db, ⟨hplain, hcontent⟩, rfl⟩, hconn, hold_of_view hcontent⟩
  · split
    · have hclose : Triple after (closeServed c) (fun _ p => Brought env paths args source c dir p.dir)
          (fun _ p => Footprint env paths args source c dir p.dir) := by
        refine (triple_closeServing (P := fun w' => ∃ w tally, before w ∧ build env args source w = (.ok tally, w'))).conseq
          ?_ ?_ ?_
        · rintro p ⟨w, w', tally, hw, hrun, hs⟩
          exact ⟨w', ⟨w, tally, hw, hrun⟩, hs⟩
        · rintro _ p ⟨w', ⟨_, tally, ⟨db, hplace, rfl⟩, hrun⟩, hfiles⟩
          exact .reconciled hplace hrun hfiles
        · rintro _ p ⟨w', ⟨_, tally, ⟨db, hplace, rfl⟩, hrun⟩, hfiles⟩
          exact (Brought.reconciled hplace hrun hfiles).footprint
      exact hclose.bind fun _ p hp => ⟨fun h => (by cases h), fun _ => hp⟩
    · rename_i honce
      rintro p ⟨_, w', tally, ⟨db, hplace, rfl⟩, hrun, hs⟩
      exact ⟨fun _ => ⟨Bool.eq_false_iff.mpr honce, w', .reconciled hplace hrun, hs⟩, fun h => (by cases h)⟩

/-- **The start.** -/
theorem triple_start (hview : dir.served.view ≠ .torn) : Triple (fun p => p.dir = dir) (startUp env paths args source c)
    (Started env paths args source c dir) (fun _ p => Footprint env paths args source c dir p.dir) := by
  rw [startUp]
  refine triple_look.bind fun p₀ => ?_
  by_cases hdir : p₀.dir = dir
  · rw [hdir]
    cases hrebuild : args.rebuild with
    | true =>
        refine (triple_startPublished hview (Or.inl hrebuild)).conseq (fun _ hp => hp.2) (fun _ _ hp => hp) fun _ _ hp => hp
    | false =>
        cases hmain : dir.served.has .main with
        | true =>
            exact (triple_startInPlace hrebuild hmain).conseq (fun _ hp => hp.2) (fun _ _ hp => hp) fun _ _ hp => hp
        | false =>
            have hnone : dir.served.main = none := Option.not_isSome_iff_eq_none.mp (Bool.eq_false_iff.mp hmain)
            exact (triple_startPublished hview (Or.inr hnone)).conseq (fun _ hp => hp.2) (fun _ _ hp => hp) fun _ _ hp => hp
  · intro p hp
    rw [hp.1, hp.2] at hdir
    exact absurd rfl hdir

/-! ### The process -/

/-- **The worker's part**, on the open catalog. -/
theorem triple_serveCatalog : Triple (fun p => ∃ w, Ready env paths args source c dir w ∧ Serving p w)
    (serve env args source c) (fun _ p => Footprint env paths args source c dir p.dir)
    (fun _ p => Footprint env paths args source c dir p.dir) := by
  have hready : ∀ p, (∃ w, Ready env paths args source c dir w ∧ Serving p w) →
      Footprint env paths args source c dir p.dir := by
    rintro p ⟨_, h, hs⟩
    exact h.footprint hs
  have hclosed : ∀ p : Process, (∃ w, Works env paths args source c dir w ∧ p.dir.served.Hold w.conn.committed) →
      Footprint env paths args source c dir p.dir := by
    rintro p ⟨_, h, hfiles⟩
    exact .worked h hfiles
  have hleft : ∀ p, (∃ w, Works env paths args source c dir w ∧ Serving p w) → Footprint env paths args source c dir p.dir := by
    rintro p ⟨_, h, hs⟩
    exact .worked h hs.files
  have htearDown : Triple (fun p => ∃ w, Works env paths args source c dir w ∧ Serving p w) (tearDown c)
      (fun _ p => Footprint env paths args source c dir p.dir) (fun _ p => Footprint env paths args source c dir p.dir) := by
    have hstop : Within (fun _ => True) Aside
        (change (fun p : Process => { p with stopped := true }) >>= fun _ =>
          stopTagServer c >>= fun _ => stopTimers c >>= fun _ => stopObserver c) :=
      Within.bind Aside.trans (fun p _ => ⟨trivial, rfl, rfl⟩) fun _ => within_stopAll
    have hall := ((triple_aside hstop (Works env paths args source c dir)).conseq (fun _ hp => hp) (fun _ _ hp => hp)
      fun _ => hleft).bind fun _ =>
        (triple_closeServing (c := c)).conseq (fun _ hp => hp) (fun _ => hclosed) fun _ => hclosed
    rwa [bind_bind, bind_bind, bind_bind] at hall
  rw [serve]
  refine ((triple_aside within_startThreads _).conseq (fun _ hp => hp) (fun _ _ hp => hp) fun _ => hready).bind fun _ => ?_
  have hwork : Triple (fun p => ∃ w, Ready env paths args source c dir w ∧ Serving p w)
      (onConn (workerLoop env source args.extractWorkers c.items) >>= fun _ => call c .work id)
      (fun _ p => ∃ w, Works env paths args source c dir w ∧ Serving p w)
      (fun _ p => ∃ w, Works env paths args source c dir w ∧ Serving p w) := by
    have hloop : Triple (fun p => ∃ w, Ready env paths args source c dir w ∧ Serving p w)
        (onConn (workerLoop env source args.extractWorkers c.items))
        (fun _ p => ∃ w, Works env paths args source c dir w ∧ Serving p w)
        (fun _ p => ∃ w, Works env paths args source c dir w ∧ Serving p w) := by
      refine (triple_onServing _).conseq (fun _ hp => hp) ?_ ?_
      · rintro _ p ⟨w, w', h, hrun, hs⟩
        refine ⟨_, .served h, ?_⟩
        rw [hrun]
        exact hs
      · rintro _ p ⟨w, e, w', h, hrun, hs⟩
        refine ⟨_, .served h, ?_⟩
        rw [hrun]
        exact hs
    exact hloop.bind fun _ => triple_aside (within_call .work Aside.refl) _
  refine Triple.bind (Q := fun _ (p : Process) => Footprint env paths args source c dir p.dir) ?_ fun _ p hp => hp
  exact hwork.ensuring (fun _ => htearDown) (fun _ _ => htearDown) fun _ p _ => hleft p

/-- What a process leaves when it ends; one that was to build once and returned has brought the catalog up to date. -/
theorem triple_lockedMain (hview : dir.served.view ≠ .torn) : Triple (fun p => p.dir = dir)
    (lockedMain env paths args source c)
    (fun _ p => Footprint env paths args source c dir p.dir ∧ (args.once = true → Brought env paths args source c dir p.dir))
    (fun _ p => Footprint env paths args source c dir p.dir) := by
  refine (triple_start hview).bind fun goesOn => ?_
  cases goesOn with
  | true =>
      intro p hp
      obtain ⟨honce, hready⟩ := hp.1 rfl
      refine (triple_serveCatalog : Triple _ (serve env args source c) _ _).conseq (fun _ hp => hp)
        (fun _ _ hp => ⟨hp, fun h => ?_⟩) (fun _ _ hp => hp) p hready
      rw [honce] at h
      cases h
  | false => exact fun p hp => ⟨(hp.2 rfl).footprint, fun _ => hp.2 rfl⟩

end Parts

/-! ### Catalogs that are whole -/

/-- **A whole catalog**: it is well formed, every file is under its own names, and a build was finished for it. -/
structure WholeCatalog (env : Env) (db : Db) : Prop where
  inv : DbInv env db
  built : ∃ build, db.buildMetadata = some build ∧ 0 < build.lastBuildNs

section Catalogs

variable {env : Env} {c : Course} {source : Source} {workers : Workers} {db : Db} {w w' : World}

theorem built_of_onward {row row' : Option BuildRow} (h : Onward row row')
    (hbuilt : ∃ build, row = some build ∧ 0 < build.lastBuildNs) : ∃ build, row' = some build ∧ 0 < build.lastBuildNs := by
  cases h with
  | same => exact hbuilt
  | stamped _ hns => exact ⟨_, rfl, hns⟩

theorem soundAt_loaded (h : DbInv env db) : SoundAt env (loaded c db) := by
  show SoundAt env (opened db c.clock)
  rw [opened_eq]
  exact sound_opened h

theorem committed_of_exit {α : Type} {x : Except PyErr α × World}
    (h : Exit (fun _ => SoundAt env) (fun _ => CommittedIn (DbInv env)) x) : DbInv env x.2.conn.committed := by
  rcases x with ⟨out, w⟩
  cases out with
  | ok a => exact (show SoundAt env w from h).committed
  | error e => exact h

/-- Only the last item raises: a process that an exception of an item would leave with stale caches is started again. -/
def LastRaises (env : Env) (source : Source) (workers : Workers) : List WorkItem → World → Prop
  | [], _ => True
  | item :: items, w =>
    item = .stop ∨ ((items = [] ∨ ∃ reply, (dispatch env source workers item w).1 = .ok reply) ∧
      LastRaises env source workers items (workItem env source workers item w).2)

theorem workerLoop_cons {item : WorkItem} (hitem : item ≠ .stop) (items : List WorkItem) (w : World) :
    workerLoop env source workers (item :: items) w =
      workerLoop env source workers items (workItem env source workers item w).2 := by
  have hreply : ∃ reply, (workItem env source workers item w).1 = .ok reply := by
    rw [workItem, bind_of_ok (attempt_apply _ w)]
    cases (dispatch env source workers item w).1 with
    | ok reply => exact ⟨reply, rfl⟩
    | error e => exact ⟨none, rfl⟩
  obtain ⟨reply, hreply⟩ := hreply
  rw [workerLoop.eq_3 _ _ _ _ _ hitem]
  exact bind_of_ok (Prod.ext hreply rfl)

/-- **The loop.** -/
theorem committed_workerLoop (hinj : FingerprintInjective env) : ∀ (items : List WorkItem) (w : World), SoundAt env w →
    LastRaises env source workers items w → DbInv env (workerLoop env source workers items w).2.conn.committed := by
  intro items
  induction items with
  | nil => exact fun w h _ => h.committed
  | cons item items ih =>
      intro w h hlast
      by_cases hstop : item = .stop
      · rw [hstop]
        exact h.committed
      · obtain ⟨hreturned, hrest⟩ := hlast.resolve_left hstop
        have hexits := (durable_sound hinj).dispatch source workers item w h
        rw [workerLoop_cons hstop]
        rw [workItem_world] at hrest ⊢
        rcases hrun : dispatch env source workers item w with ⟨out, w'⟩
        rw [hrun] at hexits hreturned hrest
        cases out with
        | ok reply => exact ih w' hexits hrest
        | error e =>
            rcases hreturned with rfl | ⟨reply, hreply⟩
            · exact hexits
            · cases hreply

/-! ### A publish -/

theorem loadCaches_of_ok {caches : Caches} (h : loadCaches w = (.ok caches, w')) :
    caches = Caches.of w.conn.working ∧ w'.conn.committed = w.conn.committed ∧ w'.conn.working = w.conn.working := by
  have hcalm := calm_loadCaches w caches w' h
  rw [loadCaches_quiet (quiet_scripted w)] at hcalm
  obtain ⟨hcaches, hworld⟩ := Prod.ext_iff.mp hcalm
  refine ⟨(Except.ok.inj hcaches).symm, ?_, ?_⟩
  · exact (congrArg (fun w : World => w.conn.committed) hworld).symm
  · exact (congrArg (fun w : World => w.conn.working) hworld).symm

/-- What is done on the temporary database before `build_fn`. -/
def seeding (floor : Option ℕ) : Py Unit := do
  let caches ← loadCaches
  change fun w => w.setCaches caches
  floor.elim (pure ()) seedBuildIdFloor

theorem calm_seeding (floor : Option ℕ) : Calm (seeding floor) := by
  refine calm_loadCaches.bind fun _ => (calm_change fun _ => rfl).bind fun _ => ?_
  cases floor with
  | none => exact calm_pure ()
  | some floor =>
      rw [Option.elim_some, seedBuildIdFloor]
      exact (calm_statement _ _).bind fun _ => calm_commit

/-- The floor of the build ids is a change of the build alone. -/
theorem keeps_seedBuildIdFloor {I : Property} (hI : Tame I) (floor lo : ℕ) :
    Builder.Keeps I lo (seedBuildIdFloor floor) fun _ => True :=
  (keeps_execute hI.rollBack _ fun {_ view _} hview =>
    hI.failures view.catalogFailures (seedBuild floor view).buildMetadata hview).bind fun _ _ => keeps_commit hI

theorem tame_any : Tame fun _ _ _ => True := ⟨id, fun _ _ _ h => h, fun _ => id, fun _ _ => id, fun _ => id, fun _ => id⟩

/-- **The temporary database when `build_fn` is called**: the caches are its own, and its connection works if it did so far. -/
theorem seeding_of_ok {floor : Option ℕ} {circumstances : Circumstances} {u : Unit}
    (hseed : seeding floor (freshWorld circumstances) = (.ok u, w)) :
    SoundAt env w ∧ circumstances.clock ≤ w.clock ∧ (circumstances.faults = [] → w.Quiet) := by
  refine ⟨?_, ?_, fun hquiet => ?_⟩
  · rw [seeding] at hseed
    obtain ⟨caches, w₁, hcaches, hseed⟩ := bind_eq_ok hseed
    obtain ⟨_, w₂, hchange, hseed⟩ := bind_eq_ok hseed
    obtain ⟨rfl, hcommitted, hworking⟩ := loadCaches_of_ok hcaches
    cases hchange
    have hloaded : SoundAt env (World.setCaches w₁ (Caches.of (freshWorld circumstances).conn.working)) := by
      show Sound env w₁.conn.committed w₁.conn.working _
      rw [hcommitted, hworking]
      exact sound_opened (dbInv_empty env)
    cases floor with
    | none =>
        cases hseed
        exact hloaded
    | some floor =>
        rw [Option.elim_some] at hseed
        exact (keeps_seedBuildIdFloor (tame_sound env) floor 0).ran hloaded hseed
  · have hkeeps : Builder.Keeps (fun _ _ _ => True) circumstances.clock (seeding floor) fun _ => True := by
      refine (keeps_loadCaches fun _ _ _ h => h).bind fun caches _ =>
        Keeps.bind (Q := fun _ => True) (fun w hw => ⟨trivial, trivial, hw.since⟩) fun _ _ => ?_
      cases floor with
      | none => exact keeps_pure trivial
      | some floor =>
          rw [Option.elim_some]
          exact keeps_seedBuildIdFloor tame_any floor _
    have hafter := hkeeps.after (w := freshWorld circumstances) ⟨trivial, le_refl _⟩
    rw [hseed] at hafter
    exact hafter.since
  · have hcalm := calm_seeding floor _ _ _ hseed
    have hfresh : scripted (freshWorld circumstances) [] = freshWorld circumstances := scripted_of_quiet hquiet
    rw [hfresh, hseed] at hcalm
    have hscripted : w = scripted w [] := (Prod.ext_iff.mp hcalm).2
    rw [hscripted]
    exact quiet_scripted w

theorem buildUpTo_eq {α : Type} (floor : Option ℕ) (buildFn : Py α) :
    CarryForward.buildUpTo floor buildFn = (seeding floor >>= fun _ => buildFn) := by
  rw [CarryForward.buildUpTo, seeding]
  simp only [bind_bind]

theorem DbInv.carried (h : DbInv env db) (row : OldOverride) : DbInv env (Publish.carried db row) := by
  rw [Publish.carried]
  cases hfile : db.lookupFile row.dims with
  | none => exact h
  | some r =>
      have hget : (db.files.get r.id).isSome = true := CarryForward.First.isSome ⟨row.dims, r, hfile, rfl⟩
      exact h.overrides ((onlyOverrides_insert hget row.key row.value).refs h.inv.overrideRefs)

/-- **What is renamed over the served path is whole.** -/
theorem whole_of_buildTempDb (hinj : FingerprintInjective env) {floor : Option ℕ} {rows : List OldOverride}
    {checkpoint : TempCheckpoint} {row : CheckpointRow} {circumstances : Circumstances} {tally : Tally}
    (hrun : buildTempDb floor rows checkpoint (fullReconcile env source workers) (freshWorld circumstances) =
      (.ok (tally, row), w)) : WholeCatalog env w.conn.committed := by
  have hcarried : ∀ (rows : List OldOverride) (db : Db), DbInv env db → DbInv env (rows.foldl Publish.carried db) := by
    intro rows
    induction rows with
    | nil => exact fun _ h => h
    | cons row rows ih => exact fun db h => ih _ (DbInv.carried h row)
  obtain ⟨build, hbuild, _, hns⟩ := buildTempDb_ok (counts_fullReconcile source workers) hrun
  refine ⟨?_, build, hbuild, hns⟩
  obtain ⟨built, hbuilt, hcommitted⟩ := TagLifetimes.committed_of_buildTempDb hrun
  rw [buildUpTo_eq] at hbuilt
  obtain ⟨_, w₁, hseed, hreconcile⟩ := bind_eq_ok hbuilt
  rw [hcommitted]
  exact hcarried rows _ (((durable_sound hinj).fullReconcile source workers).ok (seeding_of_ok hseed).1 hreconcile).working

/-! ### The build that was finished -/

theorem buildMetadata_edited {r : Row FileKey FileCols} {dims : Dims} (hfile : db.lookupFile dims = some r) (now : ℤ)
    (setKv : List (PyStr × PyStr)) (unsetKeys : List PyStr) :
    (edited r.id now setKv unsetKeys db).buildMetadata = db.buildMetadata := by
  have hget : (db.files.get r.id).isSome = true := CarryForward.First.isSome ⟨dims, r, hfile, rfl⟩
  obtain ⟨overrides, hedited⟩ := (CarryForward.onlyOverrides_edited hget now setKv unsetKeys).only
  rw [hedited]

/-- **The items of the worker** move the build row onward. -/
theorem counted_workItem {base : Option BuildRow} (h : HoldsAt (Counted base) w) (source : Source) (workers : Workers)
    (item : WorkItem) : HoldsAt (Counted base) (workItem env source workers item w).2 := by
  refine TagLifetimes.workItem_holds cataloging_counted stamps_counted source workers ?_ h
  rintro edit - w₁ w₂ r u h₁ hfile hrun
  obtain ⟨hworking, hcommitted⟩ := updateTags_of_ok hrun
  have hrow : w₂.conn.working.buildMetadata = w₁.conn.working.buildMetadata := by
    rw [hworking, buildMetadata_edited hfile]
  rw [HoldsAt, Counted, hcommitted, hrow]
  exact ⟨h₁.1.trans h₁.2, Onward.same _⟩

theorem counted_workerLoop {base : Option BuildRow} : ∀ (items : List WorkItem) (w : World), HoldsAt (Counted base) w →
    HoldsAt (Counted base) (workerLoop env source workers items w).2 := by
  intro items
  induction items with
  | nil => exact fun w h => h
  | cons item items ih =>
      intro w h
      by_cases hstop : item = .stop
      · rw [hstop]
        exact h
      · rw [workerLoop_cons hstop]
        exact ih _ (counted_workItem h source workers item)

theorem counted_fullReconcile {base : Option BuildRow} (h : HoldsAt (Counted base) w) :
    HoldsAt (Counted base) (fullReconcile env source workers w).2 :=
  (counts_fullReconcile source workers base 0).leaves h

end Catalogs

/-! ### One process after the other -/

/-- What a reader of the served path sees is whole, if it is a catalog; the frames there are those of the main file. -/
structure Intact (env : Env) (dir : Dir) : Prop where
  notTorn : dir.served.view ≠ .torn
  whole : ∀ db, dir.served.view = .content db → WholeCatalog env db

section Processes

variable {env : Env} {paths : Paths} {args : Args} {source : Source} {c : Course} {dir dir' : Dir} {w : World} {p : Process}

theorem intact_of_hold {db : Db} (hhold : dir.served.Hold db) (hwhole : WholeCatalog env db) : Intact env dir := by
  refine ⟨not_torn_of_hold hhold, fun db' hview => ?_⟩
  rw [hhold.2] at hview
  cases hview
  exact hwhole

/-- **A publish.** -/
theorem Intact.published (h : Intact env dir) (hinj : FingerprintInjective env) {workers : Workers}
    {circumstances : Circumstances} {out : Except Halt Tally}
    (hspared : ¬LosesFrames paths circumstances (fullReconcile env source workers) dir)
    (hrun : buildAndPublish paths circumstances (fullReconcile env source workers) dir = (out, dir')) : Intact env dir' := by
  rcases buildAndPublish_cases hrun with ⟨halt, _, hswap⟩ | ⟨result, dir₁, hswap, hmain, hframes⟩
  · have hsame := swap_error hspared hswap
    exact ⟨by rw [hsame]; exact h.notTorn, by rw [hsame]; exact h.whole⟩
  · obtain ⟨row, w, generation, hbuilt, _, hmain₁, hframes₁⟩ := swap_ok h.notTorn hswap
    exact intact_of_hold ⟨⟨_, _, hmain.trans hmain₁⟩, (hframes hframes₁).view (hmain.trans hmain₁)⟩
      (whole_of_buildTempDb hinj hbuilt)

/-- A publish of the process loses no frames. -/
def Spared (env : Env) (paths : Paths) (args : Args) (source : Source) (c : Course) (dir : Dir) : Prop :=
  args.rebuild = true ∨ dir.served.main = none → ¬LosesFrames paths c.publish (build env args source) dir

/-- After an item that raised, the process handles no other. -/
def Restarted (env : Env) (paths : Paths) (args : Args) (source : Source) (c : Course) (dir : Dir) : Prop :=
  ∀ w, Ready env paths args source c dir w → LastRaises env source args.extractWorkers c.items w

/-- The database that a process opens in place. -/
theorem sound_of_whole {db : Db} (h : WholeCatalog env db) : SoundAt env (loaded c db) ∧
    HoldsAt (Counted db.buildMetadata) (loaded c db) := ⟨soundAt_loaded h.inv, Onward.same _, Onward.same _⟩

/-- **Where the loop starts.** -/
theorem Ready.sound (h : Intact env dir) (hinj : FingerprintInjective env) (hspared : Spared env paths args source c dir)
    (hready : Ready env paths args source c dir w) : SoundAt env w ∧
      ∃ base, (∃ build, base = some build ∧ 0 < build.lastBuildNs) ∧ HoldsAt (Counted base) w := by
  cases hready with
  | published hpublishes hview =>
      have hwhole := (h.published hinj (hspared hpublishes.1) hpublishes.2).whole _ hview
      exact ⟨(sound_of_whole hwhole).1, _, hwhole.built, (sound_of_whole hwhole).2⟩
  | reconciled hplace hrun =>
      have hwhole := h.whole _ hplace.2
      refine ⟨((durable_sound hinj).fullReconcile source _).ok (sound_of_whole hwhole).1 hrun, _, hwhole.built, ?_⟩
      have hcounted : HoldsAt (Counted _) (build env args source (loaded c _)).2 := counted_fullReconcile (sound_of_whole hwhole).2
      rwa [hrun] at hcounted

/-- **What is committed when the connection is left.** -/
theorem Works.whole (h : Intact env dir) (hinj : FingerprintInjective env) (hspared : Spared env paths args source c dir)
    (hrestarted : Restarted env paths args source c dir) (hworks : Works env paths args source c dir w) :
    WholeCatalog env w.conn.committed := by
  cases hworks with
  | ready hready =>
      obtain ⟨hsound, base, hbuilt, hcounted⟩ := hready.sound h hinj hspared
      exact ⟨hsound.committed, built_of_onward hcounted.1 hbuilt⟩
  | opened hplace => exact h.whole _ hplace.2
  | reconciled hplace =>
      have hwhole := h.whole _ hplace.2
      obtain ⟨hsound, hcounted⟩ := sound_of_whole (c := c) hwhole
      exact ⟨committed_of_exit ((durable_sound hinj).fullReconcile source args.extractWorkers _ hsound),
        built_of_onward (counted_fullReconcile hcounted).1 hwhole.built⟩
  | served hready =>
      obtain ⟨hsound, base, hbuilt, hcounted⟩ := hready.sound h hinj hspared
      exact ⟨committed_workerLoop hinj _ _ hsound (hrestarted _ hready),
        built_of_onward (counted_workerLoop _ _ hcounted).1 hbuilt⟩

/-- **What a process leaves at the served path.** -/
theorem footprint_of_main (hview : dir.served.view ≠ .torn) {out : Except Halt ℕ}
    (h : main env paths args source c (Process.start dir) = (out, p)) :
    Footprint env paths args source c dir p.dir ∧
      (args.once = true → out = .ok 0 → Brought env paths args source c dir p.dir) := by
  by_cases henters : Enters args c
  · rw [main_of_enters henters] at h
    rcases hrun : lockedMain env paths args source c (entered dir) with ⟨out₁, p₁⟩
    have hexit := (triple_lockedMain hview : Triple _ (lockedMain env paths args source c) _ _) (entered dir) rfl
    rw [hrun] at hexit
    have hleft : Footprint env paths args source c dir p₁.dir := by
      cases out₁ with
      | ok code => exact hexit.1
      | error halt => exact hexit
    rcases release_cases hrun h with ⟨hcrash, rfl, rfl⟩ | ⟨rfl, rfl⟩ | ⟨halt, _, rfl, rfl, _⟩
    · refine ⟨hleft, fun _ hzero => ?_⟩
      rw [hcrash] at hzero
      cases hzero
    · refine ⟨hleft, fun honce hzero => ?_⟩
      rw [hzero] at hexit
      exact hexit.2 honce
    · exact ⟨hleft, fun _ hzero => by cases hzero⟩
  · obtain ⟨hsame, hzero⟩ := main_of_not_enters henters h
    refine ⟨?_, fun _ h₀ => absurd h₀ hzero⟩
    rw [hsame]
    exact .untouched

/-- **One process.** -/
theorem Intact.process (h : Intact env dir) (hinj : FingerprintInjective env) (hspared : Spared env paths args source c dir)
    (hrestarted : Restarted env paths args source c dir) {out : Except Halt ℕ}
    (hrun : main env paths args source c (Process.start dir) = (out, p)) : Intact env p.dir := by
  cases (footprint_of_main h.notTorn hrun).1 with
  | untouched => exact h
  | published hneeded hpublish => exact h.published hinj (hspared hneeded) hpublish
  | worked hworks hfiles => exact intact_of_hold hfiles (hworks.whole h hinj hspared hrestarted)

end Processes

/-- One process of a builder, from its start to its end, whatever that is. -/
inductive ProcessStep (env : Env) (paths : Paths) : Dir → Dir → Prop where
  | ran {dir : Dir} {args : Args} {source : Source} {c : Course} {out : Except Halt ℕ} {p : Process}
      (hspared : Spared env paths args source c dir) (hrestarted : Restarted env paths args source c dir)
      (hrun : main env paths args source c (Process.start dir) = (out, p)) : ProcessStep env paths dir p.dir

section Statements

variable {env : Env} {paths : Paths} {dir dir' : Dir}

/-- **One process** leaves no database, or a whole one. -/
theorem ProcessStep.intact (hinj : FingerprintInjective env) (hstep : ProcessStep env paths dir dir') (h : Intact env dir) :
    Intact env dir' := by
  cases hstep with
  | ran hspared hrestarted hrun => exact h.process hinj hspared hrestarted hrun

/-- **A reader never sees a half-built catalog.**  Builders are started one after the other, in place or to build anew, and each
is stopped, ends by an exception, is turned away, or is killed at any call and after any statement: what is seen at the served
path is no database, as before, or a whole one. -/
theorem whole_of_processes (hinj : FingerprintInjective env) (hrun : ReflTransGen (ProcessStep env paths) dir dir')
    (h : Intact env dir) : Intact env dir' := by
  induction hrun with
  | refl => exact h
  | tail _ hstep ih => exact hstep.intact hinj ih

end Statements

/-- A process on the example bucket, without a tag socket. -/
def bucketArgs (once : Bool) : Args := ⟨.s3, [], some (py "data"), none, none, none, once, false, true, .one⟩

/-- Nothing ends the process but the end of the worker's loop, and nothing goes wrong in its publish. -/
def courseOf (work : Option Halt) (faults : List (Option Fault)) (clock : ℕ) (items : List WorkItem) : Course where
  halts what := if what = .work then work else none
  isDir := true
  refused := none
  publish := calm
  faults := faults
  clock := clock
  items := items
  lateEvent := false
  lastOne := true

theorem spared_courseOf {env : Env} {args : Args} {source : Source} {dir : Dir} (work : Option Halt)
    (faults : List (Option Fault)) (clock : ℕ) (items : List WorkItem) :
    Spared env catalogPaths args source (courseOf work faults clock items) dir := by
  have hcalm : GarbageOnly calm := by
    intro e he
    cases List.mem_singleton.mp he
  exact fun _ hloses => hcalm.not_taken hloses.2.1

/-- The catalog of one recording is built once. -/
def builtOnce : Except Halt ℕ × Process :=
  main oneTopicEnv catalogPaths (bucketArgs true) CarryForward.sampleSource (courseOf none [] 0 []) (Process.start noDir)

/-- The next builder finds other recordings.  A statement of its rescan fails, and then it is killed. -/
def failingRescan : Course := courseOf (some .crash) (.replicate 20 none ++ [some .keep]) 100 [.rescan]

def killedRescan : Except Halt ℕ × Process :=
  main oneTopicEnv catalogPaths (bucketArgs false) mixedSource failingRescan (Process.start builtOnce.2.dir)

theorem processStep_builtOnce : ProcessStep oneTopicEnv catalogPaths noDir builtOnce.2.dir := by
  have hrun : main oneTopicEnv catalogPaths (bucketArgs true) CarryForward.sampleSource (courseOf none [] 0 [])
      (Process.start noDir) = (builtOnce.1, builtOnce.2) := by
    rw [Prod.mk.eta, builtOnce]
  exact .ran (spared_courseOf none [] 0 []) (fun _ _ => trivial) hrun

theorem processStep_killedRescan : ProcessStep oneTopicEnv catalogPaths builtOnce.2.dir killedRescan.2.dir := by
  have hrun : main oneTopicEnv catalogPaths (bucketArgs false) mixedSource failingRescan (Process.start builtOnce.2.dir) =
      (killedRescan.1, killedRescan.2) := by
    rw [Prod.mk.eta, killedRescan]
  exact .ran (spared_courseOf (some .crash) _ 100 [.rescan]) (fun _ _ => Or.inr ⟨Or.inl rfl, trivial⟩) hrun

theorem intact_noDir : Intact oneTopicEnv noDir where
  notTorn htorn := by cases htorn
  whole _ hview := by cases hview

theorem whole_of_processes_killed :
    (builtOnce.2.dir.served.view.db.map fun db => db.files.rows.length) = some 1 ∧ Intact oneTopicEnv killedRescan.2.dir :=
  ⟨by decide +kernel, whole_of_processes fingerprintInjective_oneTopicEnv
    ((ReflTransGen.single processStep_builtOnce).tail processStep_killedRescan) intact_noDir⟩

end McapCatalog.Daemon
