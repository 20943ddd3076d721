import McapCatalog.Debounce

/-!
# Which timers are registered

The threads of `McapEventHandler` with `cancel_timers`, which another thread may call at any time.  A move is one section under
the lock, one put or one timer starting its function, so between two moves the lock is free.

* `LockMove`, `lockStep` — the moves, and `Run` — a run with the states its moves were made in;
* `Controlled` — every waiting timer is the one registered under its path, so that there is one at most, and a deletion or
  `cancel_timers` can cancel it;
* `Timely` — no timer that has started removes the registration of one that waits;
* `controlled_iff_timely` — **a run is controlled throughout exactly if its moves are timely.**
-/

namespace McapCatalog.Debounce

open McapCatalog.PyText McapCatalog.KeyedRows McapCatalog.Worker McapCatalog.Discovery
open Relation

/-- `cancel_timers`. -/
def Handler.cancelTimers (h : Handler) : Handler :=
  { h with
    timers := h.registered.entries.foldl (fun timers e => timers.modify e.2 Timer.cancel) h.timers
    registered := ∅ }

/-- A move of the handler's threads, or a call of `cancel_timers`. -/
inductive LockMove where
  | move (m : Move)
  | cancelTimers

/-- One move, if the thread can make it. -/
def lockStep (h : Handler) : LockMove → Option Handler
  | .move m => step h m
  | .cancelTimers => some h.cancelTimers

/-- A run: the states and the moves made in them, and the state it has led to. -/
inductive Run : List (Handler × LockMove) → Handler → Prop where
  | idle : Run [] Handler.idle
  | step {moves : List (Handler × LockMove)} {h h' : Handler} (run : Run moves h) (m : LockMove)
      (hstep : lockStep h m = some h') : Run (moves ++ [(h, m)]) h'

/-- Every waiting timer is the one registered under its path. -/
def Stored (h : Handler) : Prop := ∀ (i : ℕ) path, h.timers[i]? = some ⟨path, .waiting⟩ → h.registered.lookup path = some i

/-- No timer of the path waits. -/
def Quiet (h : Handler) (path : PyStr) : Prop := ∀ i : ℕ, h.timers[i]? ≠ some ⟨path, .waiting⟩

/-- **The timers are under control**: what waits is registered under its path, one at most for each; and what a deletion of
the path cancels, or `cancel_timers`, leaves none waiting. -/
structure Controlled (h : Handler) : Prop where
  stored : Stored h
  unique : ∀ (i j : ℕ) path, h.timers[i]? = some ⟨path, .waiting⟩ → h.timers[j]? = some ⟨path, .waiting⟩ → i = j
  deleted : ∀ path, Quiet (h.cancelRegistered path) path
  cancelled : ∀ path, Quiet h.cancelTimers path

/-- A timer that removes the registration of its path finds no waiting timer there. -/
def Timely (h : Handler) : LockMove → Prop
  | .move (.remove i) => ∀ path j, h.timers[i]? = some ⟨path, .started⟩ → h.registered.lookup path = some j →
      h.timers[j]? ≠ some ⟨path, .waiting⟩
  | _ => True

theorem timely_remove_iff {h : Handler} {i : ℕ} : Timely h (.move (.remove i)) ↔ ∀ t ∈ h.timers[i]?, t.phase = .started →
    ∀ j ∈ h.registered.lookup t.path, h.timers[j]? ≠ some ⟨t.path, .waiting⟩ := by
  constructor
  · rintro htimely ⟨path, phase⟩ ht rfl j hj
    exact htimely path j (Option.mem_def.mp ht) (Option.mem_def.mp hj)
  · intro hall path j ht hj
    exact hall ⟨path, .started⟩ (Option.mem_def.mpr ht) rfl j (Option.mem_def.mpr hj)

instance (h : Handler) : ∀ m, Decidable (Timely h m)
  | .move (.remove _) => decidable_of_iff _ timely_remove_iff.symm
  | .move (.begin _) | .move .act | .move (.start _) | .move (.put _) | .cancelTimers => isTrue trivial

/-! ### Cancelling -/

section Cancelling

variable {h : Handler} {path other : PyStr} {i j : ℕ}

theorem cancel_ne_waiting (t : Timer) (path : PyStr) : t.cancel ≠ ⟨path, .waiting⟩ := by
  intro ht
  rw [Timer.cancel] at ht
  split at ht
  · cases ht
  · rename_i hphase
    rw [ht] at hphase
    exact hphase rfl

/-- What waits after a cancel is another timer that waited before. -/
theorem waiting_of_modify {timers : List Timer} (h : (timers.modify j Timer.cancel)[i]? = some ⟨path, .waiting⟩) :
    i ≠ j ∧ timers[i]? = some ⟨path, .waiting⟩ := by
  by_cases hij : i = j
  · rw [hij, List.getElem?_modify_eq] at h
    obtain ⟨t, _, ht⟩ := Option.map_eq_some_iff.mp h
    exact absurd ht (cancel_ne_waiting t path)
  · rw [List.getElem?_modify_ne _ _ (Ne.symm hij)] at h
    exact ⟨hij, h⟩

theorem waiting_cancelRegistered (hi : (h.cancelRegistered path).timers[i]? = some ⟨other, .waiting⟩) :
    h.timers[i]? = some ⟨other, .waiting⟩ ∧ h.registered.lookup path ≠ some i := by
  rw [Handler.cancelRegistered] at hi
  split at hi
  · rename_i hnone
    exact ⟨hi, by rw [hnone]; simp⟩
  · rename_i j hj
    obtain ⟨hne, hold⟩ := waiting_of_modify hi
    rw [hj]
    exact ⟨hold, fun heq => hne (Option.some.inj heq).symm⟩

theorem lookup_cancelRegistered (hne : other ≠ path) :
    (h.cancelRegistered path).registered.lookup other = h.registered.lookup other := by
  rw [Handler.cancelRegistered]
  split
  · rfl
  · exact AList.lookup_erase_ne hne

theorem Stored.deleted (hs : Stored h) (path : PyStr) : Quiet (h.cancelRegistered path) path := by
  intro i hi
  obtain ⟨hold, hother⟩ := waiting_cancelRegistered hi
  exact hother (hs i path hold)

theorem Stored.cancelRegistered (hs : Stored h) (path : PyStr) : Stored (h.cancelRegistered path) := by
  intro i other hi
  have hne : other ≠ path := by
    rintro rfl
    exact hs.deleted other i hi
  rw [lookup_cancelRegistered hne]
  exact hs i other (waiting_cancelRegistered hi).1

/-- What waits after several cancels waited before, and none of them was of it. -/
theorem waiting_of_foldl (entries : List (Sigma fun _ : PyStr => ℕ)) {timers : List Timer}
    (h : (entries.foldl (fun timers e => timers.modify e.2 Timer.cancel) timers)[i]? = some ⟨path, .waiting⟩) :
    timers[i]? = some ⟨path, .waiting⟩ ∧ ∀ e ∈ entries, e.2 ≠ i := by
  induction entries generalizing timers with
  | nil => exact ⟨h, fun _ he => absurd he List.not_mem_nil⟩
  | cons e entries ih =>
      obtain ⟨hmodified, hothers⟩ := ih h
      obtain ⟨hne, hold⟩ := waiting_of_modify hmodified
      refine ⟨hold, fun e' he' => ?_⟩
      cases List.mem_cons.mp he' with
      | inl heq => rw [heq]; exact hne.symm
      | inr hmem => exact hothers e' hmem

theorem Stored.cancelled (hs : Stored h) (path : PyStr) : Quiet h.cancelTimers path := by
  intro i hi
  obtain ⟨hold, hnone⟩ := waiting_of_foldl _ hi
  exact hnone _ (AList.mem_lookup_iff.mp (hs i path hold)) rfl

/-- **The registrations are all that is needed.** -/
theorem controlled_iff_stored : Controlled h ↔ Stored h := by
  refine ⟨Controlled.stored, fun hs => ⟨hs, fun i j path hi hj => ?_, hs.deleted, hs.cancelled⟩⟩
  have hsame := (hs i path hi).symm.trans (hs j path hj)
  exact Option.some.inj hsame

end Cancelling

/-! ### One move -/

section Moving

variable {h h' : Handler}

theorem Stored.perform (hs : Stored h) (a : Action) : Stored (h.perform a) := by
  cases a with
  | cancel path => exact hs.cancelRegistered path
  | put item => exact hs
  | schedule path =>
      have hc := hs.cancelRegistered path
      intro i other hi
      have hi : ((h.cancelRegistered path).timers ++ [⟨path, .waiting⟩])[i]? = some ⟨other, .waiting⟩ := hi
      show ((h.cancelRegistered path).registered.insert path (h.cancelRegistered path).timers.length).lookup other = some i
      by_cases hlt : i < (h.cancelRegistered path).timers.length
      · rw [List.getElem?_append_left hlt] at hi
        have hne : other ≠ path := by
          rintro rfl
          exact hs.deleted other i hi
        rw [AList.lookup_insert_ne hne]
        exact hc i other hi
      · rw [List.getElem?_append_right (Nat.le_of_not_lt hlt)] at hi
        have hnew : i - (h.cancelRegistered path).timers.length = 0 := by
          by_contra hpos
          rw [List.getElem?_eq_none (by simpa using Nat.one_le_iff_ne_zero.mpr hpos)] at hi
          cases hi
        rw [hnew, List.getElem?_cons_zero] at hi
        have hpath : path = other := congrArg Timer.path (Option.some.inj hi)
        have hlast : (h.cancelRegistered path).timers.length = i := by omega
        rw [← hpath, AList.lookup_insert, hlast]

theorem Stored.goOn (hs : Stored h) (c : Callback) (rest : List Action) : Stored (h.goOn c rest) := by
  cases rest with
  | nil => exact hs
  | cons a rest => exact hs

/-- A timer that goes on does not wait, and the others stay as they are. -/
theorem waiting_of_enter {i j : ℕ} {path : PyStr} {phase : Phase} (hphase : phase ≠ .waiting)
    (hj : (h.enter i phase).timers[j]? = some ⟨path, .waiting⟩) : j ≠ i ∧ h.timers[j]? = some ⟨path, .waiting⟩ := by
  have hj : (h.timers.modify i fun t => { t with phase := phase })[j]? = some ⟨path, .waiting⟩ := hj
  by_cases hij : i = j
  · rw [hij, List.getElem?_modify_eq] at hj
    obtain ⟨t, _, ht⟩ := Option.map_eq_some_iff.mp hj
    exact absurd (congrArg Timer.phase ht) hphase
  · rw [List.getElem?_modify_ne _ _ hij] at hj
    exact ⟨Ne.symm hij, hj⟩

theorem Stored.enter (hs : Stored h) (i : ℕ) {phase : Phase} (hphase : phase ≠ .waiting) : Stored (h.enter i phase) :=
  fun j path hj => hs j path (waiting_of_enter hphase hj).2

/-- **A removal keeps the registrations of the waiting timers exactly if it is timely.** -/
theorem Stored.remove_iff (hs : Stored h) {i : ℕ} {path : PyStr} (hi : h.timers[i]? = some ⟨path, .started⟩) :
    Stored { h.enter i .removed with registered := h.registered.erase path } ↔ Timely h (.move (.remove i)) := by
  constructor
  · intro hs' other j hother hj hwaiting
    have hpath : path = other := by
      rw [hi] at hother
      exact congrArg Timer.path (Option.some.inj hother)
    have hne : i ≠ j := by
      rintro rfl
      rw [hi] at hwaiting
      cases hwaiting
    have hsame : (h.timers.modify i fun t => { t with phase := .removed })[j]? = some ⟨other, .waiting⟩ := by
      rw [List.getElem?_modify_ne _ _ hne, hwaiting]
    have hlost : (h.registered.erase path).lookup other = some j := hs' j other hsame
    rw [hpath, AList.lookup_erase] at hlost
    cases hlost
  · intro htimely j other hj
    have hremoved : Phase.removed ≠ .waiting := by decide
    obtain ⟨_, hold⟩ := waiting_of_enter hremoved hj
    have hregistered := hs j other hold
    have hne : other ≠ path := by
      rintro rfl
      exact htimely other j hi hregistered hold
    exact (AList.lookup_erase_ne hne).trans hregistered

/-- **One move.** -/
theorem Stored.step_iff (hs : Stored h) {m : LockMove} (hstep : lockStep h m = some h') : Stored h' ↔ Timely h m := by
  cases m with
  | cancelTimers =>
      cases hstep
      exact iff_of_true (fun i path hi => absurd hi (hs.cancelled path i)) trivial
  | move m =>
      have hstep : step h m = some h' := hstep
      cases m with
      | begin c =>
          rw [step] at hstep
          split at hstep
          · cases hstep
            have hbegan : Stored { h with log := h.log ++ [.began c] } := hs
            exact iff_of_true (hbegan.goOn c _) trivial
          · cases hstep
      | act =>
          rw [step] at hstep
          split at hstep
          · rename_i c a rest hcur
            cases hstep
            exact iff_of_true ((hs.perform a).goOn c rest) trivial
          · cases hstep
      | start i =>
          rw [step] at hstep
          split at hstep
          · cases hstep
            exact iff_of_true (hs.enter i (by decide)) trivial
          · cases hstep
      | remove i =>
          rw [step] at hstep
          split at hstep
          · rename_i path hi
            cases hstep
            exact hs.remove_iff hi
          · cases hstep
      | put i =>
          rw [step] at hstep
          split at hstep
          · cases hstep
            exact iff_of_true (hs.enter i (by decide)) trivial
          · cases hstep

end Moving

/-! ### Runs -/

theorem stored_idle : Stored Handler.idle := by
  intro i path hi
  cases hi

/-- **A run is under control throughout exactly if its moves are timely.** -/
theorem controlled_iff_timely {moves : List (Handler × LockMove)} {h : Handler} (run : Run moves h) :
    ((∀ s ∈ moves, Controlled s.1) ∧ Controlled h) ↔ ∀ s ∈ moves, Timely s.1 s.2 := by
  induction run with
  | idle =>
      refine iff_of_true ⟨fun _ hs => ?_, controlled_iff_stored.mpr stored_idle⟩ fun _ hs => ?_
      · exact absurd hs List.not_mem_nil
      · exact absurd hs List.not_mem_nil
  | @step moves h h' run m hstep ih =>
      simp only [List.forall_mem_append, List.forall_mem_singleton]
      rw [ih]
      constructor
      · rintro ⟨htimely, hafter⟩
        have hbefore := controlled_iff_stored.mp (ih.mpr htimely).2
        exact ⟨htimely, (hbefore.step_iff hstep).mp (controlled_iff_stored.mp hafter)⟩
      · rintro ⟨htimely, hlast⟩
        have hbefore := controlled_iff_stored.mp (ih.mpr htimely).2
        exact ⟨htimely, controlled_iff_stored.mpr ((hbefore.step_iff hstep).mpr hlast)⟩

/-! ### A removal that comes too late -/

/-- A list of moves, with the states they are made in. -/
def movesOf (h : Handler) : List LockMove → Option (List (Handler × LockMove) × Handler)
  | [] => some ([], h)
  | m :: ms =>
    match lockStep h m with
    | none => none
    | some h' => (movesOf h' ms).map fun out => ((h, m) :: out.1, out.2)

theorem run_of_movesOf : ∀ (ms : List LockMove) {before after : List (Handler × LockMove)} {h h' : Handler},
    Run before h → movesOf h ms = some (after, h') → Run (before ++ after) h'
  | [], before, after, h, h', run, hms => by
      cases hms
      rw [List.append_nil]
      exact run
  | m :: ms, before, after, h, h', run, hms => by
      rw [movesOf] at hms
      split at hms
      · cases hms
      · rename_i h₁ hstep
        obtain ⟨⟨rest, h₂⟩, hrest, heq⟩ := Option.map_eq_some_iff.mp hms
        cases heq
        rw [List.append_cons]
        exact run_of_movesOf ms (run.step m hstep) hrest

/-- A file is written to twice; the first timer starts its function before the second one is registered, and removes the
registration after that. -/
def lateRemoval : List LockMove :=
  [.move (.begin writes), .move .act, .move (.start 0), .move (.begin writes), .move .act, .move (.remove 0)]

/-- Where that ends: the second timer waits, and nothing is registered. -/
def unregistered : Handler where
  timers := [⟨py "/w/a.mcap", .removed⟩, ⟨py "/w/a.mcap", .waiting⟩]
  registered := ∅
  current := none
  log := [.began writes, .ended writes, .began writes, .ended writes]

theorem lateRemoval_not_controlled : ∃ moves h, Run moves h ∧ ¬Controlled h := by
  have hms : (movesOf Handler.idle lateRemoval).map Prod.snd = some unregistered := rfl
  obtain ⟨⟨moves, h⟩, hmoves, heq⟩ := Option.map_eq_some_iff.mp hms
  have hrun := run_of_movesOf lateRemoval Run.idle hmoves
  refine ⟨moves, unregistered, ?_, fun hc => ?_⟩
  · rw [← heq]
    exact hrun
  · have hlost : (∅ : Rows PyStr ℕ).lookup (py "/w/a.mcap") = some 1 := hc.stored 1 (py "/w/a.mcap") rfl
    cases hlost

/-- A timer fires, and the file is written to twice again; then nothing may wait any more. -/
def shutDown : List LockMove :=
  [.move (.begin writes), .move .act, .move (.start 0), .move (.remove 0), .move (.put 0), .move (.begin writes), .move .act,
    .move (.begin writes), .move .act, .cancelTimers]

theorem controlled_iff_timely_shutDown : ∃ moves h, Run moves h ∧ moves.map Prod.snd = shutDown ∧
    (∀ s ∈ moves, Controlled s.1) ∧ Controlled h := by
  obtain ⟨⟨moves, h⟩, hmoves⟩ := Option.isSome_iff_exists.mp (show (movesOf Handler.idle shutDown).isSome = true from rfl)
  have hrun := run_of_movesOf shutDown Run.idle hmoves
  have hlist : (movesOf Handler.idle shutDown).map (fun out => out.1.map Prod.snd) = some shutDown := rfl
  have htimely : (movesOf Handler.idle shutDown).all (fun out => out.1.all fun s => decide (Timely s.1 s.2)) = true := by
    decide
  rw [hmoves] at hlist htimely
  refine ⟨moves, h, hrun, Option.some.inj hlist, (controlled_iff_timely hrun).mpr fun s hs => ?_⟩
  exact of_decide_eq_true (List.all_eq_true.mp htimely s hs)

end McapCatalog.Debounce
