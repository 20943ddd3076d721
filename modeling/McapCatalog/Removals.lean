import McapCatalog.Debounce

/-!
# Removals and late catalog events

The callbacks of `McapEventHandler` with timers that fire between them.  A delete event takes the path's pending timer with it
when the file was deleted, and leaves it when the file was moved away.

* `Happening`, `happen` — a callback or a timer that fires, on the handler and a journal of what happened;
* `NoneStale` — no catalog event of a path after its delete event, unless a file has come back there;
* `SparesTimers` — no file is moved away from a path with a pending timer;
* `noneStale_of_spares` — **no catalog event is stale in a run whose happenings spare the timers.**
-/

namespace McapCatalog.Debounce

open McapCatalog.PyText McapCatalog.KeyedRows McapCatalog.Worker McapCatalog.Discovery

/-- What can happen: a callback, or the timer of a path that fires. -/
inductive Happening where
  | callback (c : Callback)
  | fire (path : PyStr)

/-- The handler, and what happened and was put on the queue, oldest first. -/
structure Journaled where
  handler : EventHandler
  journal : List Entry

/-- The events a callback puts. -/
def Callback.enqueued (c : Callback) : List WorkItem := c.body.filterMap fun | .put item => some item | _ => none

/-- One happening, if it can happen: a timer fires that is pending. -/
def happen (s : Journaled) : Happening → Option Journaled
  | .callback c => some ⟨c.handle s.handler, s.journal ++ c.enqueued.map Entry.put ++ [.ended c]⟩
  | .fire path =>
    if path ∈ s.handler.timers then some ⟨s.handler.fireCatalog path, s.journal ++ [.put (.catalog path)]⟩ else none

/-- Nothing has happened. -/
def Journaled.start : Journaled := ⟨EventHandler.idle, []⟩

/-- A run, with the states its happenings were met in. -/
inductive TimerHistory : List (Journaled × Happening) → Journaled → Prop where
  | start : TimerHistory [] Journaled.start
  | step {met : List (Journaled × Happening)} {s s' : Journaled} (run : TimerHistory met s) (m : Happening)
      (hstep : happen s m = some s') : TimerHistory (met ++ [(s, m)]) s'

/-- **No catalog event is stale**: between a delete event of a path and a later catalog event of it, a file was created,
modified or moved in there. -/
def NoneStale (journal : List Entry) : Prop :=
  ∀ (path : PyStr) (before middle after : List Entry),
    journal = before ++ Entry.put (.delete path) :: (middle ++ Entry.put (.catalog path) :: after) →
      ∃ c, Entry.ended c ∈ middle ∧ c.arrives path = true

/-- No file is moved away from a path with a pending timer, unless onto itself. -/
def SparesTimers (s : Journaled) : Happening → Prop
  | .callback (.moved event) => event.isDirectory = false → isCatalogable event.srcPath = true →
      event.srcPath ∈ s.handler.timers → event.destPath = event.srcPath
  | _ => True

/-! ### The journal -/

theorem puts_append (before after : List Entry) : puts (before ++ after) = puts before ++ puts after := List.filterMap_append

theorem puts_map_put (items : List WorkItem) : puts (items.map Entry.put) = items := by
  rw [puts, List.filterMap_map]
  exact List.filterMap_some

theorem queue_foldl_atOnce (body : List Action) (g : EventHandler) :
    (body.foldl atOnce g).queue = g.queue ++ body.filterMap fun | .put item => some item | _ => none := by
  induction body generalizing g with
  | nil => exact (List.append_nil g.queue).symm
  | cons a body ih =>
      rw [List.foldl_cons, ih]
      cases a with
      | schedule path => rfl
      | cancel path => rfl
      | put item => exact List.append_assoc g.queue [item] _

/-- The journal has what is on the queue, in order. -/
theorem TimerHistory.puts_eq {met : List (Journaled × Happening)} {s : Journaled} (run : TimerHistory met s) :
    s.handler.queue = puts s.journal := by
  induction run with
  | start => rfl
  | @step met s s' run m hstep ih =>
      cases m with
      | callback c =>
          cases hstep
          show (c.handle s.handler).queue = puts (s.journal ++ c.enqueued.map Entry.put ++ [.ended c])
          rw [Callback.handle_eq, queue_foldl_atOnce, puts_append, puts_append, puts_map_put, ih]
          exact (List.append_nil _).symm
      | fire path =>
          rw [happen] at hstep
          split at hstep
          · cases hstep
            show s.handler.queue ++ [.catalog path] = puts (s.journal ++ [.put (.catalog path)])
            rw [puts_append, ih]
            rfl
          · cases hstep

/-- Each happening is a step of the handler. -/
theorem handlerStep_of_happen {s s' : Journaled} {m : Happening} (hstep : happen s m = some s') :
    HandlerStep s.handler s'.handler := by
  cases m with
  | callback c =>
      cases hstep
      cases c with
      | created event => exact .created _ event
      | modified event => exact .modified _ event
      | deleted event => exact .deleted _ event
      | moved event => exact .moved _ event
  | fire path =>
      rw [happen] at hstep
      split at hstep
      · rename_i hpending
        cases hstep
        exact .fire _ path hpending
      · cases hstep

/-! ### The invariant -/

/-- The path's last delete event waits for a file to come back. -/
def gone (path : PyStr) : List Entry → Bool :=
  flag (fun | .put item => item = .delete path | _ => false) (fun | .ended c => c.arrives path | _ => false)

section Gone

variable {path : PyStr} {journal : List Entry}

@[simp] theorem gone_ended (c : Callback) : gone path (journal ++ [.ended c]) = (gone path journal && !c.arrives path) := by
  rw [gone, flag_append, Bool.false_or]

@[simp] theorem gone_put (item : WorkItem) :
    gone path (journal ++ [.put item]) = (decide (item = .delete path) || gone path journal) := by
  rw [gone, flag_append, Bool.not_false, Bool.and_true]

end Gone

/-- **The invariant**: no path with a pending timer is gone, nor was one when its catalog event was put. -/
structure Fresh (s : Journaled) : Prop where
  pending : ∀ path ∈ s.handler.timers, gone path s.journal = false
  put : ∀ path before after, s.journal = before ++ .put (.catalog path) :: after → gone path before = false

/-- What holds of what was put before holds still, if no catalog event comes with it. -/
theorem Fresh.put_append {s : Journaled} (hf : Fresh s) {more : List Entry}
    (hmore : ∀ path, Entry.put (.catalog path) ∈ more → ∀ before after, more = before ++ .put (.catalog path) :: after →
      gone path (s.journal ++ before) = false)
    {path : PyStr} {before after : List Entry} (h : s.journal ++ more = before ++ .put (.catalog path) :: after) :
    gone path before = false := by
  rcases List.append_eq_append_iff.mp h with ⟨front, hbefore, hrest⟩ | ⟨back, hjournal, hrest⟩
  · rw [hbefore]
    exact hmore path (by rw [hrest]; simp) front after hrest
  · cases back with
    | nil =>
        rw [List.append_nil] at hjournal
        have hwhole : more = [] ++ .put (.catalog path) :: after := hrest.symm
        have hgone := hmore path (by rw [hwhole]; simp) [] after hwhole
        rwa [List.append_nil, hjournal] at hgone
    | cons e back =>
        obtain ⟨he, _⟩ := List.cons.inj hrest
        exact hf.put path before back (by rw [hjournal, ← he])

theorem enqueued_created (event : FsEvent) : (Callback.created event).enqueued = [] := by
  rw [Callback.enqueued, Callback.body]
  split <;> rfl

theorem enqueued_modified (event : FsEvent) : (Callback.modified event).enqueued = [] := by
  rw [Callback.enqueued, Callback.body]
  split <;> rfl

theorem enqueued_deleted (event : FsEvent) : (Callback.deleted event).enqueued =
    if !event.isDirectory && isCatalogable event.srcPath then [.delete event.srcPath] else [] := by
  rw [Callback.enqueued, Callback.body]
  split <;> rfl

theorem enqueued_moved (event : FsEvent) : (Callback.moved event).enqueued =
    if !event.isDirectory && isCatalogable event.srcPath then [.delete event.srcPath] else [] := by
  rw [Callback.enqueued, Callback.body]
  cases event.isDirectory with
  | true => rfl
  | false =>
      rw [if_neg Bool.false_ne_true, List.filterMap_append]
      cases isCatalogable event.srcPath <;> cases isCatalogable event.destPath <;> rfl

/-- A callback puts a delete event at most, of the path it is about. -/
theorem Callback.mem_enqueued {c : Callback} {item : WorkItem} (h : item ∈ c.enqueued) :
    ∃ event, (c = .deleted event ∨ c = .moved event) ∧ event.isDirectory = false ∧ isCatalogable event.srcPath = true ∧
      item = .delete event.srcPath := by
  cases c with
  | created event => rw [enqueued_created] at h; cases h
  | modified event => rw [enqueued_modified] at h; cases h
  | deleted event =>
      rw [enqueued_deleted] at h
      split at h
      · rename_i hcond
        rw [Bool.and_eq_true, Bool.not_eq_true'] at hcond
        exact ⟨event, Or.inl rfl, hcond.1, hcond.2, List.mem_singleton.mp h⟩
      · cases h
  | moved event =>
      rw [enqueued_moved] at h
      split at h
      · rename_i hcond
        rw [Bool.and_eq_true, Bool.not_eq_true'] at hcond
        exact ⟨event, Or.inr rfl, hcond.1, hcond.2, List.mem_singleton.mp h⟩
      · cases h

/-- What is pending after a callback was scheduled by it, or was pending before and is not what it deleted. -/
theorem Callback.mem_timers {c : Callback} {g : EventHandler} {path : PyStr} (h : path ∈ (c.handle g).timers) :
    c.arrives path = true ∨ path ∈ g.timers ∧ ∀ event, c = .deleted event → event.isDirectory = false →
      isCatalogable event.srcPath = true → path ≠ event.srcPath := by
  cases c with
  | created event | modified event =>
      first | rw [Callback.handle, EventHandler.onCreated] at h | rw [Callback.handle, EventHandler.onModified] at h
      split at h
      · rename_i hcond
        rw [Bool.and_eq_true] at hcond
        cases List.mem_cons.mp h with
        | inl heq =>
            left
            rw [heq, Callback.arrives, hcond.1]
            simp
        | inr hold => exact Or.inr ⟨(mem_timers_cancel.mp hold).1, fun _ heq => by cases heq⟩
      · exact Or.inr ⟨h, fun _ heq => by cases heq⟩
  | deleted event =>
      rw [Callback.handle, EventHandler.onDeleted] at h
      split at h
      · have hold := mem_timers_cancel.mp h
        refine Or.inr ⟨hold.1, fun event' heq _ _ => ?_⟩
        cases heq
        exact hold.2
      · rename_i hcond
        refine Or.inr ⟨h, fun event' heq hdir hcat => ?_⟩
        cases heq
        rw [hdir, hcat] at hcond
        exact absurd rfl hcond
  | moved event =>
      rw [Callback.handle, EventHandler.onMoved] at h
      split at h
      · exact Or.inr ⟨h, fun _ heq => by cases heq⟩
      · rename_i hdir
        have hsame : ∀ g' : EventHandler, g' = (if isCatalogable event.srcPath then
            { g with queue := g.queue ++ [.delete event.srcPath] } else g) → g'.timers = g.timers := by
          rintro g' rfl
          split <;> rfl
        dsimp only at h
        split at h
        · cases List.mem_cons.mp h with
          | inl heq =>
              left
              rw [heq, Callback.arrives]
              simp [hdir]
          | inr hold =>
              have hbefore := (mem_timers_cancel.mp hold).1
              rw [hsame _ rfl] at hbefore
              exact Or.inr ⟨hbefore, fun _ heq => by cases heq⟩
        · rw [hsame _ rfl] at h
          exact Or.inr ⟨h, fun _ heq => by cases heq⟩

theorem gone_callback (c : Callback) (path : PyStr) (journal : List Entry) :
    gone path (journal ++ c.enqueued.map Entry.put ++ [.ended c]) =
      ((decide (WorkItem.delete path ∈ c.enqueued) || gone path journal) && !c.arrives path) := by
  have hputs : ∀ (items : List WorkItem) (journal : List Entry), gone path (journal ++ items.map Entry.put) =
      (decide (WorkItem.delete path ∈ items) || gone path journal) := by
    intro items
    induction items with
    | nil => simp
    | cons item items ih =>
        intro journal
        rw [List.map_cons, List.append_cons, ih, gone_put]
        by_cases heq : item = .delete path
        · simp [heq]
        · have hne : ¬WorkItem.delete path = item := fun h => heq h.symm
          simp [heq, hne]
  rw [gone_ended, hputs]

/-- **A callback that spares the timers** leaves none pending for a path that is gone. -/
theorem Fresh.callback {s : Journaled} (hf : Fresh s) {c : Callback} (hspares : SparesTimers s (.callback c)) {path : PyStr}
    (hpath : path ∈ (c.handle s.handler).timers) :
    gone path (s.journal ++ c.enqueued.map Entry.put ++ [.ended c]) = false := by
  rw [gone_callback]
  cases Callback.mem_timers hpath with
  | inl harrives => rw [harrives, Bool.not_true, Bool.and_false]
  | inr hold =>
      obtain ⟨hpending, hkept⟩ := hold
      rw [hf.pending path hpending, Bool.or_false, Bool.and_eq_false_iff]
      by_cases hdelete : WorkItem.delete path ∈ c.enqueued
      · obtain ⟨event, hc, hdir, hcat, heq⟩ := Callback.mem_enqueued hdelete
        have hsrc : path = event.srcPath := WorkItem.delete.inj heq
        cases hc with
        | inl hdeleted => exact absurd hsrc (hkept event hdeleted hdir hcat)
        | inr hmoved =>
            -- The file was moved onto itself.
            right
            rw [hmoved] at hspares
            rw [hsrc] at hpending
            rw [hmoved, Callback.arrives, hdir, hspares hdir hcat hpending, hsrc]
            simp
      · exact Or.inl (decide_eq_false hdelete)

/-- **One happening.** -/
theorem Fresh.step {s s' : Journaled} (hf : Fresh s) {m : Happening} (hspares : SparesTimers s m)
    (hstep : happen s m = some s') : Fresh s' := by
  cases m with
  | callback c =>
      cases hstep
      refine ⟨fun path hpath => hf.callback hspares hpath, fun path before after h => ?_⟩
      rw [List.append_assoc] at h
      refine hf.put_append (fun path' hmem => ?_) h
      rcases List.mem_append.mp hmem with hput | hended
      · obtain ⟨item, hitem, heq⟩ := List.mem_map.mp hput
        obtain ⟨_, _, _, _, hdelete⟩ := Callback.mem_enqueued hitem
        cases heq
        cases hdelete
      · simp at hended
  | fire path =>
      rw [happen] at hstep
      split at hstep
      · rename_i hpending
        cases hstep
        refine ⟨fun other hother => ?_, fun other before after h => hf.put_append (fun other' hmem before' after' hsplit => ?_) h⟩
        · have hold := (mem_timers_cancel.mp hother).1
          show gone other (s.journal ++ [.put (.catalog path)]) = false
          rw [gone_put, hf.pending other hold]
          rfl
        · cases before' with
          | nil =>
              have hsame : other' = path := by simpa using hmem
              rw [List.append_nil, hsame]
              exact hf.pending path hpending
          | cons e before' =>
              have hlen := congrArg List.length hsplit
              simp at hlen
      · cases hstep

theorem fresh_start : Fresh Journaled.start where
  pending _ h := absurd h List.not_mem_nil
  put _ before _ h := by
    cases before <;> cases h

theorem Fresh.noneStale {s : Journaled} (hf : Fresh s) : NoneStale s.journal := by
  intro path before middle after h
  have hgone := hf.put path (before ++ .put (.delete path) :: middle) after (by rw [h, List.append_assoc]; rfl)
  have hraises : decide (WorkItem.delete path = .delete path) = true := decide_eq_true rfl
  obtain ⟨e, he, hlowers⟩ := lowered_of_flag (e := .put (.delete path)) hraises before middle hgone
  cases e with
  | ended c => exact ⟨c, he, hlowers⟩
  | began c => cases hlowers
  | put item => cases hlowers

/-- **No catalog event is stale** in a run in which no file is moved away from a path with a pending timer. -/
theorem noneStale_of_spares {met : List (Journaled × Happening)} {s : Journaled} (run : TimerHistory met s)
    (hspares : ∀ p ∈ met, SparesTimers p.1 p.2) : (∀ p ∈ met, NoneStale p.1.journal) ∧ NoneStale s.journal := by
  have hfresh : (∀ p ∈ met, Fresh p.1) ∧ Fresh s := by
    induction run with
    | start => exact ⟨fun _ hp => absurd hp List.not_mem_nil, fresh_start⟩
    | @step met s s' run m hstep ih =>
        obtain ⟨hbefore, hlast⟩ := ih fun p hp => hspares p (List.mem_append_left _ hp)
        refine ⟨fun p hp => ?_, hlast.step (hspares (s, m) (by simp)) hstep⟩
        cases List.mem_append.mp hp with
        | inl hold => exact hbefore p hold
        | inr hnew =>
            rw [List.mem_singleton.mp hnew]
            exact hlast
  exact ⟨fun p hp => (hfresh.1 p hp).noneStale, hfresh.2.noneStale⟩

/-! ### A file that is moved away too soon -/

/-- The happenings, with the states they are met in. -/
def historyOf (s : Journaled) : List Happening → Option (List (Journaled × Happening) × Journaled)
  | [] => some ([], s)
  | m :: ms =>
    match happen s m with
    | none => none
    | some s' => (historyOf s' ms).map fun out => ((s, m) :: out.1, out.2)

theorem history_of_historyOf : ∀ (ms : List Happening) {before after : List (Journaled × Happening)} {s s' : Journaled},
    TimerHistory before s → historyOf s ms = some (after, s') → TimerHistory (before ++ after) s'
  | [], before, after, s, s', run, hms => by
      cases hms
      rw [List.append_nil]
      exact run
  | m :: ms, before, after, s, s', run, hms => by
      rw [historyOf] at hms
      split at hms
      · cases hms
      · rename_i s₁ hstep
        obtain ⟨⟨rest, s₂⟩, hrest, heq⟩ := Option.map_eq_some_iff.mp hms
        cases heq
        rw [List.append_cons]
        exact history_of_historyOf ms (run.step m hstep) hrest

/-- A file is created and moved to another place. -/
def movesAway : Callback := .moved ⟨false, py "/w/a.mcap", py "/w/b.mcap"⟩

theorem movedAway_stale : ∃ met s, TimerHistory met s ∧ ¬NoneStale s.journal := by
  have hms : (historyOf Journaled.start
      [.callback writes, .callback movesAway, .fire (py "/w/a.mcap")]).map (fun out => out.2.journal) =
        some [.ended writes, .put (.delete (py "/w/a.mcap")), .ended movesAway, .put (.catalog (py "/w/a.mcap"))] := rfl
  obtain ⟨⟨met, s⟩, hmet, heq⟩ := Option.map_eq_some_iff.mp hms
  refine ⟨met, s, history_of_historyOf _ TimerHistory.start hmet, fun hnone => ?_⟩
  obtain ⟨c, hc, harrives⟩ := hnone (py "/w/a.mcap") [.ended writes] [.ended movesAway] [] heq
  cases List.mem_singleton.mp hc
  exact absurd harrives (by decide)

/-- A file is written, deleted and written again before its timer fires, then moved to another place and back, each time after
the timer has fired. -/
def movedBack : List Happening :=
  [.callback writes, .callback (.deleted ⟨false, py "/w/a.mcap", []⟩), .callback writes, .fire (py "/w/a.mcap"),
    .callback movesAway, .fire (py "/w/b.mcap"), .callback (.moved ⟨false, py "/w/b.mcap", py "/w/a.mcap"⟩),
    .fire (py "/w/a.mcap")]

instance (s : Journaled) : ∀ m, Decidable (SparesTimers s m)
  | .fire _ | .callback (.created _) | .callback (.modified _) | .callback (.deleted _) => isTrue trivial
  | .callback (.moved event) => inferInstanceAs (Decidable (event.isDirectory = false →
      isCatalogable event.srcPath = true → event.srcPath ∈ s.handler.timers → event.destPath = event.srcPath))

theorem noneStale_of_spares_movedBack : ∃ met s, TimerHistory met s ∧ met.map Prod.snd = movedBack ∧
    s.journal.length = 11 ∧ NoneStale s.journal := by
  obtain ⟨⟨met, s⟩, hmet⟩ :=
    Option.isSome_iff_exists.mp (show (historyOf Journaled.start movedBack).isSome = true from rfl)
  have hrun := history_of_historyOf movedBack TimerHistory.start hmet
  have hends : (historyOf Journaled.start movedBack).map (fun out => (out.1.map Prod.snd, out.2.journal.length)) =
      some (movedBack, 11) := rfl
  have hspares : (historyOf Journaled.start movedBack).all
      (fun out => out.1.all fun p => decide (SparesTimers p.1 p.2)) = true := by decide
  rw [hmet] at hends hspares
  obtain ⟨hlist, hlength⟩ := Prod.mk.inj (Option.some.inj hends)
  refine ⟨met, s, hrun, hlist, hlength, (noneStale_of_spares hrun fun p hp => ?_).2⟩
  exact of_decide_eq_true (List.all_eq_true.mp hspares p hp)

end McapCatalog.Debounce
