import McapCatalog.Faults
import McapCatalog.PendingEdits
import McapCatalog.WorkerRuns

/-!
# What a reply says about the edit

A client learns what became of its edit from one status code.  The endpoint's history is followed request by request:
each goes through a fixed sequence of stages, and its handler, its place in the line and the entries about it in the log
agree at every moment.

* `EditRun.Committed`, `EditRun.Dropped` — the two outcomes of an edit in the worker (`workItem_edit_cases`);
* `Life` — the stages of a request; `EditStep.tracked` — **every step of the endpoint moves one request along**;
* `replies_sound` — **what each answer implies**, when it is given and ever after.
-/

namespace McapCatalog.TagIpc

open McapCatalog.PyText McapCatalog.PyError McapCatalog.KeyParse McapCatalog.Storage McapCatalog.Tables
open McapCatalog.RowidTable McapCatalog.KeyedRows
open McapCatalog.Connection McapCatalog.CatalogDb McapCatalog.Reconcile McapCatalog.Worker
open McapCatalog.Builder McapCatalog.Runs
open McapCatalog.SurvivingState McapCatalog.SurvivingState.Comp

/-! ### The two outcomes of an edit -/

/-- One run of an edit committed it: the row the key names got exactly this edit, in one commit, and the answer carries
the tags right after it. -/
def EditRun.Committed (run : EditRun) : Prop :=
  run.result.status = .ok ∧ ¬run.item.deadline < run.checkedAt ∧
    ∃ row now, run.before.working.lookupFile run.item.dims = some row ∧
      run.after.committed = edited row.id now run.item.setTags run.item.unsetKeys run.before.working ∧
      run.after.working = run.after.committed ∧
      run.result.tags = orderFst (run.after.committed.tagsEffective row.id)

/-- One run of an edit left nothing of it. -/
def EditRun.Dropped (run : EditRun) : Prop := run.result.status ≠ .ok ∧ Untouched run.before run.after

/-- **The two outcomes of an edit** whose tags can be read back, on a connection whose statements may fail. -/
theorem workItem_edit_cases {w w' : World} {env : Env} {source : Source} {workers : Workers} {item : TagEditItem}
    {result : TagEditResult} (hread : ReadsBack env item w)
    (h : workItem env source workers (.tagEdit item) w = (.ok (some result), w')) :
    (EditRun.mk item (env.monotonic w.clock) w.conn w'.conn result).Committed ∨
      (EditRun.mk item (env.monotonic w.clock) w.conn w'.conn result).Dropped := by
  rcases happly : applyTagEdit env item w with ⟨r, w₁⟩
  have hitem : workItem env source workers (.tagEdit item) w = (.ok (some (answered r)), w₁) :=
    workItem_tagEdit_of_apply happly
  rw [h] at hitem
  obtain ⟨hresult, hworld⟩ := Prod.ext_iff.mp hitem
  obtain rfl : result = answered r := Option.some.inj (Except.ok.inj hresult)
  obtain rfl : w' = w₁ := hworld
  by_cases hlate : item.deadline < env.monotonic w.clock
  · rw [applyTagEdit_expired hlate] at happly
    cases happly
    exact Or.inr ⟨by simp [answered], Untouched.refl _⟩
  rcases hlookup : lookupFileId item.dims w.tickClock with ⟨found, w₂⟩
  have hquery := untouched_query hlookup
  cases found with
  | error e =>
      rw [applyTagEdit_of_error hlate hlookup] at happly
      cases happly
      exact Or.inr ⟨by simp [answered], hquery.1⟩
  | ok found =>
      cases found with
      | none =>
          rw [applyTagEdit_of_none hlate hlookup] at happly
          cases happly
          exact Or.inr ⟨by simp [answered], hquery.1⟩
      | some fileId =>
          obtain ⟨hfound, hworking, _, _⟩ := query_of_ok hlookup
          rw [applyTagEdit_of_some hlate hlookup] at happly
          rcases hupdate : updateTags env fileId item.setTags item.unsetKeys w₂ with ⟨u, w₃⟩
          cases u with
          | error e =>
              rw [bind_of_error hupdate] at happly
              cases happly
              exact Or.inr ⟨by simp [answered], hquery.1.trans (updateTags_of_error hupdate)⟩
          | ok u =>
              rw [bind_of_ok hupdate] at happly
              have hnext := hread _ _ _ _ _ (tick_apply w) hlookup hupdate
              obtain ⟨hedited, hcommitted⟩ := updateTags_of_ok hupdate
              obtain ⟨row, hrow, rfl⟩ := Option.map_eq_some_iff.mp hfound.symm
              rw [bind_of_ok (query_of_next hnext _)] at happly
              cases happly
              have hconn := working_next hnext
              rw [hworking] at hedited
              refine Or.inl ⟨rfl, hlate, row, env.timeNs w₂.clock, hrow, ?_, ?_, ?_⟩
              · exact hconn.2.trans (hcommitted.trans hedited)
              · exact hconn.1.trans (hcommitted.symm.trans hconn.2.symm)
              · show orderFst _ = orderFst (Db.tagsEffective w₃.conn.next.2.committed row.id)
                rw [hconn.2, hcommitted]

/-! ### The life of a request -/

/-- What is in line for the worker: the item in its hands and the queue. -/
def EditState.inLine (s : EditState) : List Queued :=
  (match s.worker with
    | .holding queued => [queued]
    | _ => []) ++ s.queue

/-- Where the edit of a request is: nowhere, in line, or run by the worker and not replied to. -/
inductive Place where
  | nowhere
  | line (item : TagEditItem)
  | hand (result : TagEditResult)

/-- The edit of the request `id` is at this place. -/
def At (s : EditState) (id : ℕ) : Place → Prop
  | .nowhere => id ∉ s.pendingIds
  | .line item => Queued.edit id item ∈ s.inLine
  | .hand result => s.worker = .ran id result

/-- Whether an entry of the log is about the request `id`. -/
def Event.about (id : ℕ) : Event → Bool
  | .enqueued i _ => i = id
  | .ran i _ => i = id
  | .answered i _ => i = id

/-- The entries about one request. -/
def trail (id : ℕ) (log : List Event) : List Event := log.filter (Event.about id)

/-- The item is the edit that the request asks for, under some deadline. -/
def Asks (cfg : Config) (request : Request) (item : TagEditItem) : Prop :=
  ∃ edit deadline, checkRequest cfg.repr request = .ok edit ∧ item = edit.item deadline

/-- The run did what the request asks for, or nothing. -/
structure EditRun.Upright (cfg : Config) (request : Request) (run : EditRun) : Prop where
  asked : Asks cfg request run.item
  outcome : run.Committed ∨ run.Dropped

/-- The stages of a request: its handler, the place of its edit, and the entries about it, newest first. -/
inductive Life (cfg : Config) (id : ℕ) : Option Handler → Place → List Event → Prop where
  | absent : Life cfg id none .nowhere []
  | reading {h : Handler} (hp : h.phase = .reading) (he : h.event = none) : Life cfg id (some h) .nowhere []
  | admitted {h : Handler} {edit : Edit} (hp : h.phase = .admitted edit) (he : h.event = none)
      (hc : checkRequest cfg.repr h.request = .ok edit) : Life cfg id (some h) .nowhere []
  | refused {h : Handler} {answer : Answer} (hp : h.phase = .finished answer)
      (ha : answer = .busy ∨ ∃ why, answer = .rejected why) :
      Life cfg id (some h) .nowhere [.answered id answer]
  | waiting {h : Handler} {item : TagEditItem} {since : ℕ} (hp : h.phase = .waiting item since)
      (he : h.event = none) (hi : Asks cfg h.request item) : Life cfg id (some h) (.line item) [.enqueued id item]
  | waitingRan {h : Handler} {item : TagEditItem} {since : ℕ} {run : EditRun} (hp : h.phase = .waiting item since)
      (he : h.event = none) (hr : run.Upright cfg h.request) :
      Life cfg id (some h) (.hand run.result) [.ran id run, .enqueued id run.item]
  | waitingSet {h : Handler} {item : TagEditItem} {since : ℕ} {run : EditRun} (hp : h.phase = .waiting item since)
      (he : h.event = some run.result) (hr : run.Upright cfg h.request) :
      Life cfg id (some h) .nowhere [.ran id run, .enqueued id run.item]
  | served {h : Handler} {run : EditRun} (ha : h.answer = some (.served run.result))
      (hr : run.Upright cfg h.request) :
      Life cfg id (some h) .nowhere [.answered id (.served run.result), .ran id run, .enqueued id run.item]
  | gone {h : Handler} {item : TagEditItem} (ha : h.hasTimedOut) (he : h.event = none)
      (hi : Asks cfg h.request item) :
      Life cfg id (some h) (.line item) [.answered id .timedOut, .enqueued id item]
  | goneRan {h : Handler} {run : EditRun} {l : List Event} (ha : h.hasTimedOut) (he : h.event = none)
      (hr : run.Upright cfg h.request)
      (hl : l = [.ran id run, .answered id .timedOut] ∨ l = [.answered id .timedOut, .ran id run]) :
      Life cfg id (some h) (.hand run.result) (l ++ [.enqueued id run.item])
  | goneSet {h : Handler} {run : EditRun} {l : List Event} (ha : h.hasTimedOut)
      (hr : run.Upright cfg h.request)
      (hl : l = [.ran id run, .answered id .timedOut] ∨ l = [.answered id .timedOut, .ran id run]) :
      Life cfg id (some h) .nowhere (l ++ [.enqueued id run.item])

/-- Every request is at one of the stages. -/
def Tracked (cfg : Config) (s : EditState) : Prop :=
  ∀ id, ∃ place, At s id place ∧ Life cfg id (s.handlers id) place (trail id s.log)

theorem tracked_initial (cfg : Config) (w : World) : Tracked cfg (EditState.initial cfg w) :=
  fun _ => ⟨.nowhere, List.not_mem_nil, Life.absent⟩

section Steps

variable {env : Env} {cfg : Config} {s s' : EditState} {id : ℕ}

theorem pendingIds_eq (s : EditState) : s.pendingIds =
    (match s.worker with
      | .ran id _ => [id]
      | _ => []) ++ s.inLine.filterMap Queued.editId := by
  rcases s with ⟨world, queue, worker, permits, handlers, log⟩
  cases worker with
  | holding queued => cases queued <;> rfl
  | idle => rfl
  | ran id result => rfl
  | stopped => rfl

theorem mem_pendingIds_iff : id ∈ s.pendingIds ↔
    (∃ item, Queued.edit id item ∈ s.inLine) ∨ ∃ result, s.worker = .ran id result := by
  have hline : id ∈ s.inLine.filterMap Queued.editId ↔ ∃ item, Queued.edit id item ∈ s.inLine := by
    rw [List.mem_filterMap]
    constructor
    · rintro ⟨queued, hmem, hid⟩
      cases queued with
      | event item => cases hid
      | edit i item =>
          cases hid
          exact ⟨item, hmem⟩
    · rintro ⟨item, hmem⟩
      exact ⟨_, hmem, rfl⟩
  rw [pendingIds_eq, List.mem_append, hline]
  constructor
  · intro h
    cases h with
    | inl hran =>
        cases hw : s.worker with
        | ran i result =>
            rw [hw] at hran
            rw [List.mem_singleton.mp hran]
            exact Or.inr ⟨result, rfl⟩
        | idle => rw [hw] at hran; exact absurd hran List.not_mem_nil
        | holding queued => rw [hw] at hran; exact absurd hran List.not_mem_nil
        | stopped => rw [hw] at hran; exact absurd hran List.not_mem_nil
    | inr hmem => exact Or.inl hmem
  · intro h
    cases h with
    | inl hmem => exact Or.inr hmem
    | inr hran =>
        obtain ⟨result, hw⟩ := hran
        rw [hw]
        exact Or.inl List.mem_cons_self

/-- Two edits of one request in line are one. -/
theorem item_unique {l : List Queued} (h : (l.filterMap Queued.editId).Nodup) {a b : TagEditItem}
    (ha : Queued.edit id a ∈ l) (hb : Queued.edit id b ∈ l) : a = b := by
  induction l with
  | nil => exact absurd ha List.not_mem_nil
  | cons queued l ih =>
      have hmem : ∀ {c}, Queued.edit id c ∈ l → id ∈ l.filterMap Queued.editId := fun {c} hc =>
        List.mem_filterMap.mpr ⟨_, hc, rfl⟩
      cases queued with
      | event item =>
          have hrest : (l.filterMap Queued.editId).Nodup := h
          refine ih hrest ?_ ?_
          · exact (List.mem_cons.mp ha).resolve_left fun heq => by cases heq
          · exact (List.mem_cons.mp hb).resolve_left fun heq => by cases heq
      | edit i item =>
          have hcons : (i :: l.filterMap Queued.editId).Nodup := h
          rw [List.nodup_cons] at hcons
          cases List.mem_cons.mp ha with
          | inl heq =>
              cases heq
              cases List.mem_cons.mp hb with
              | inl heq' => cases heq'; rfl
              | inr hb' => exact absurd (hmem hb') hcons.1
          | inr ha' =>
              cases List.mem_cons.mp hb with
              | inl heq' => cases heq'; exact absurd (hmem ha') hcons.1
              | inr hb' => exact ih hcons.2 ha' hb'

/-- An edit is at one place. -/
theorem at_unique (hnodup : s.pendingIds.Nodup) {p q : Place} (hp : At s id p) (hq : At s id q) : p = q := by
  have hexclusive : ∀ {item result}, Queued.edit id item ∈ s.inLine → s.worker = .ran id result → False := by
    intro item result hmem hw
    rw [pendingIds_eq, hw] at hnodup
    exact (List.nodup_cons.mp hnodup).1 (List.mem_filterMap.mpr ⟨_, hmem, rfl⟩)
  cases p with
  | nowhere =>
      cases q with
      | nowhere => rfl
      | line item => exact absurd (mem_pendingIds_iff.mpr (Or.inl ⟨item, hq⟩)) hp
      | hand result => exact absurd (mem_pendingIds_iff.mpr (Or.inr ⟨result, hq⟩)) hp
  | line item =>
      cases q with
      | nowhere => exact absurd (mem_pendingIds_iff.mpr (Or.inl ⟨item, hp⟩)) hq
      | line item' =>
          rw [pendingIds_eq] at hnodup
          rw [item_unique hnodup.of_append_right hp hq]
      | hand result => exact (hexclusive hp hq).elim
  | hand result =>
      cases q with
      | nowhere => exact absurd (mem_pendingIds_iff.mpr (Or.inr ⟨result, hp⟩)) hq
      | line item => exact (hexclusive hq hp).elim
      | hand result' =>
          have hw : s.worker = .ran id result := hp
          rw [show s.worker = .ran id result' from hq] at hw
          cases hw
          rfl

/-- A place that depends only on the line and on the worker's hand. -/
theorem at_congr (hline : ∀ item, Queued.edit id item ∈ s.inLine ↔ Queued.edit id item ∈ s'.inLine)
    (hran : ∀ result, s.worker = .ran id result ↔ s'.worker = .ran id result) {p : Place} (hp : At s id p) :
    At s' id p := by
  cases p with
  | nowhere =>
      intro hmem
      apply hp
      rw [mem_pendingIds_iff] at hmem ⊢
      simp only [hline, hran]
      exact hmem
  | line item => exact (hline item).mp hp
  | hand result => exact (hran result).mp hp

theorem inLine_enqueues (s : EditState) (id : ℕ) (h : Handler) (item : TagEditItem) :
    (s.enqueues id h item).inLine = s.inLine ++ [.edit id item] :=
  (List.append_assoc _ _ _).symm

theorem inLine_posts (s : EditState) (item : WorkItem) : (s.posts item).inLine = s.inLine ++ [.event item] :=
  (List.append_assoc _ _ _).symm

theorem trail_cons_self {event : Event} (h : event.about id = true) (log : List Event) :
    trail id (event :: log) = event :: trail id log :=
  List.filter_cons_of_pos h

theorem trail_cons_other {event : Event} (h : event.about id = false) (log : List Event) :
    trail id (event :: log) = trail id log :=
  List.filter_cons_of_neg (by rw [h]; exact Bool.false_ne_true)

/-- Nothing about any request changed. -/
theorem Tracked.same (ht : Tracked cfg s) (hh : s'.handlers = s.handlers) (hl : s'.log = s.log)
    (hat : ∀ i p, At s i p → At s' i p) : Tracked cfg s' := by
  intro i
  obtain ⟨place, hplace, hlife⟩ := ht i
  exact ⟨place, hat i place hplace, by rw [hh, hl]; exact hlife⟩

/-- One request moved along. -/
theorem Tracked.move (ht : Tracked cfg s) (id : ℕ)
    (hother : ∀ i, i ≠ id → s'.handlers i = s.handlers i ∧ trail i s'.log = trail i s.log ∧ ∀ p, At s i p → At s' i p)
    (hself : ∃ place, At s' id place ∧ Life cfg id (s'.handlers id) place (trail id s'.log)) : Tracked cfg s' := by
  intro i
  by_cases heq : i = id
  · rw [heq]
    exact hself
  · obtain ⟨hh, hl, hat⟩ := hother i heq
    obtain ⟨place, hplace, hlife⟩ := ht i
    exact ⟨place, hat place hplace, by rw [hh, hl]; exact hlife⟩

/-- One handler moved, and perhaps answered. -/
theorem Tracked.handlerMoves (ht : Tracked cfg s) (id : ℕ) (new : List Event) {h' : Handler}
    (hs : s'.handlers = Function.update s.handlers id (some h')) (hw : s'.worker = s.worker) (hq : s'.queue = s.queue)
    (hlog : s'.log = new ++ s.log) (hnew : ∀ event ∈ new, ∃ answer, event = .answered id answer)
    (hlife : ∀ place, Life cfg id (s.handlers id) place (trail id s.log) →
      Life cfg id (some h') place (new ++ trail id s.log)) : Tracked cfg s' := by
  have hat : ∀ i p, At s i p → At s' i p := by
    intro i p hp
    refine at_congr (fun item => ?_) (fun result => ?_) hp
    · rw [EditState.inLine, EditState.inLine, hw, hq]
    · rw [hw]
  refine ht.move id (fun i hne => ⟨?_, ?_, hat i⟩) ?_
  · rw [hs, Function.update_of_ne hne]
  · rw [hlog, trail, List.filter_append, List.filter_eq_nil_iff.mpr fun event hevent => ?_]
    · rfl
    · obtain ⟨answer, rfl⟩ := hnew event hevent
      simp [Event.about, Ne.symm hne]
  · obtain ⟨place, hplace, hold⟩ := ht id
    refine ⟨place, hat id place hplace, ?_⟩
    rw [hs, Function.update_self, hlog, trail, List.filter_append, List.filter_eq_self.mpr fun event hevent => ?_]
    · exact hlife place hold
    · obtain ⟨answer, rfl⟩ := hnew event hevent
      simp [Event.about]

/-! ### Reading a stage off the handler -/

variable {h : Handler} {place : Place} {log : List Event}

theorem Life.of_reading (hl : Life cfg id (some h) place log) (hp : h.phase = .reading) :
    h.event = none ∧ place = .nowhere ∧ log = [] := by
  cases hl with
  | reading _ he => exact ⟨he, rfl, rfl⟩
  | _ => simp_all [Handler.answer, Handler.hasTimedOut]

theorem Life.of_admitted {edit : Edit} (hl : Life cfg id (some h) place log) (hp : h.phase = .admitted edit) :
    h.event = none ∧ checkRequest cfg.repr h.request = .ok edit ∧ place = .nowhere ∧ log = [] := by
  cases hl with
  | admitted hp' he hc =>
      rw [hp] at hp'
      cases hp'
      exact ⟨he, hc, rfl, rfl⟩
  | _ => simp_all [Handler.answer, Handler.hasTimedOut]

/-- A waiting handler whose wait times out. -/
theorem Life.gives_up {item : TagEditItem} {since : ℕ} (hl : Life cfg id (some h) place log)
    (hp : h.phase = .waiting item since) (he : h.event = none) :
    Life cfg id (some { h with phase := .answered .timedOut }) place (.answered id .timedOut :: log) := by
  cases hl with
  | waiting _ _ hi => exact Life.gone rfl he hi
  | waitingRan _ _ hr =>
      exact Life.goneRan (l := [.answered id .timedOut, .ran id _]) rfl he hr (Or.inr rfl)
  | waitingSet _ he' _ => rw [he] at he'; cases he'
  | _ => simp_all [Handler.answer, Handler.hasTimedOut]

/-- A waiting handler whose event is set. -/
theorem Life.wakes {item : TagEditItem} {since : ℕ} {result : TagEditResult} (hl : Life cfg id (some h) place log)
    (hp : h.phase = .waiting item since) (he : h.event = some result) :
    Life cfg id (some { h with phase := .answered (.served result) }) place (.answered id (.served result) :: log) := by
  cases hl with
  | waitingSet _ he' hr =>
      rw [he] at he'
      cases he'
      exact Life.served rfl hr
  | waiting _ he' _ => rw [he] at he'; cases he'
  | waitingRan _ he' _ => rw [he] at he'; cases he'
  | _ => simp_all [Handler.answer, Handler.hasTimedOut]

/-- An answered handler returns its permit. -/
theorem Life.released {answer : Answer} (hl : Life cfg id (some h) place log) (hp : h.phase = .answered answer) :
    Life cfg id (some { h with phase := .finished answer }) place log := by
  have hanswer : h.answer = Handler.answer { h with phase := .finished answer } := by
    rw [Handler.answer, hp]
    rfl
  cases hl with
  | served ha hr => exact Life.served (hanswer.symm.trans ha) hr
  | gone ha he hi => exact Life.gone (hanswer.symm.trans ha) he hi
  | goneRan ha he hr hl => exact Life.goneRan (hanswer.symm.trans ha) he hr hl
  | goneSet ha hr hl => exact Life.goneSet (hanswer.symm.trans ha) hr hl
  | _ => simp_all

/-- The worker runs the edit of a request. -/
theorem Life.runs {o : Option Handler} {item : TagEditItem} {run : EditRun} (hl : Life cfg id o (.line item) log)
    (hi : run.item = item) (ho : run.Committed ∨ run.Dropped) :
    Life cfg id o (.hand run.result) (.ran id run :: log) := by
  subst hi
  cases hl with
  | waiting hp he hi => exact Life.waitingRan hp he ⟨hi, ho⟩
  | gone ha he hi => exact Life.goneRan (l := [.ran id run, .answered id .timedOut]) ha he ⟨hi, ho⟩ (Or.inl rfl)

/-- The worker replies to a request. -/
theorem Life.replied {result : TagEditResult} (hl : Life cfg id (some h) (.hand result) log) :
    Life cfg id (some { h with event := some result }) .nowhere log := by
  cases hl with
  | waitingRan hp he hr => exact Life.waitingSet hp rfl hr
  | goneRan ha he hr hl => exact Life.goneSet ha hr hl

/-- **Every step of the endpoint moves one request along.** -/
theorem EditStep.tracked (hs : EditStep env cfg s s') (ha : Accounted s) (ht : Tracked cfg s) : Tracked cfg s' := by
  cases hs with
  | connect id request hid =>
      refine ht.handlerMoves id [] rfl rfl rfl rfl (fun _ h => absurd h List.not_mem_nil)
        fun place hl => ?_
      rw [hid] at hl
      generalize trail id s.log = log at hl ⊢
      cases hl with
      | absent => exact Life.reading rfl rfl
  | reject id hid hp hc =>
      refine ht.handlerMoves id [_] rfl rfl rfl rfl
        (fun event hmem => ⟨_, List.mem_singleton.mp hmem⟩) fun place hl => ?_
      rw [hid] at hl
      obtain ⟨_, rfl, hlog⟩ := hl.of_reading hp
      rw [hlog]
      exact Life.refused rfl (Or.inr ⟨_, rfl⟩)
  | busy id hid hp hc hn =>
      refine ht.handlerMoves id [_] rfl rfl rfl rfl
        (fun event hmem => ⟨_, List.mem_singleton.mp hmem⟩) fun place hl => ?_
      rw [hid] at hl
      obtain ⟨_, rfl, hlog⟩ := hl.of_reading hp
      rw [hlog]
      exact Life.refused rfl (Or.inl rfl)
  | acquire id hid hp hc hn =>
      refine ht.handlerMoves id [] rfl rfl rfl rfl (fun _ h => absurd h List.not_mem_nil)
        fun place hl => ?_
      rw [hid] at hl
      obtain ⟨he, rfl, hlog⟩ := hl.of_reading hp
      rw [hlog]
      exact Life.admitted rfl he hc
  | wake id hid hp he =>
      refine ht.handlerMoves id [_] rfl rfl rfl rfl
        (fun event hmem => ⟨_, List.mem_singleton.mp hmem⟩) fun place hl => ?_
      rw [hid] at hl
      exact hl.wakes hp he
  | giveUp id hid hp he htime =>
      refine ht.handlerMoves id [_] rfl rfl rfl rfl
        (fun event hmem => ⟨_, List.mem_singleton.mp hmem⟩) fun place hl => ?_
      rw [hid] at hl
      exact hl.gives_up hp he
  | release id hid hp =>
      refine ht.handlerMoves id [] rfl rfl rfl rfl (fun _ h => absurd h List.not_mem_nil)
        fun place hl => ?_
      rw [hid] at hl
      exact hl.released hp
  | enqueue id hid hp =>
      rename_i h edit
      refine ht.move id (fun i hne => ⟨Function.update_of_ne hne .., ?_, fun p hat => ?_⟩) ?_
      · exact trail_cons_other (by simp [Event.about, Ne.symm hne]) _
      · refine at_congr (fun item => ?_) (fun result => ?_) hat
        · rw [inLine_enqueues, List.mem_append, List.mem_singleton]
          refine ⟨Or.inl, fun hmem => hmem.resolve_right fun heq => ?_⟩
          cases heq
          exact hne rfl
        · exact Iff.rfl
      · obtain ⟨place, _, hl⟩ := ht id
        rw [hid] at hl
        obtain ⟨he, hc, rfl, hlog⟩ := hl.of_admitted hp
        refine ⟨.line (edit.item (env.monotonic s.world.clock + cfg.deadlineSeconds)), ?_, ?_⟩
        · show _ ∈ (s.enqueues id h _).inLine
          rw [inLine_enqueues]
          exact List.mem_append_right _ List.mem_cons_self
        · show Life cfg id (Function.update s.handlers id _ id) _ (trail id (_ :: s.log))
          rw [Function.update_self, trail_cons_self (by simp [Event.about]), hlog]
          exact Life.waiting rfl he ⟨edit, _, hc, rfl⟩
  | post item hi =>
      refine ht.same rfl rfl fun i p => at_congr (fun item' => ?_) fun result => ?_
      · rw [inLine_posts, List.mem_append, List.mem_singleton]
        exact ⟨Or.inl, fun hmem => hmem.resolve_right fun heq => by cases heq⟩
      · exact Iff.rfl
  | take hw hq =>
      rename_i queued rest
      refine ht.same rfl rfl fun i p => at_congr (fun item => ?_) fun result => ?_
      · rw [EditState.inLine, EditState.inLine, hw, hq]
        rfl
      · rw [hw]
        exact iff_of_false (fun h => by cases h) fun h => by cases h
  | stop hw =>
      refine ht.same rfl rfl fun i p => at_congr (fun item => ?_) fun result => ?_
      · rw [EditState.inLine, EditState.inLine, hw]
        simp
      · rw [hw]
        exact iff_of_false (fun h => by cases h) fun h => by cases h
  | runEvent source workers hw hi =>
      refine ht.same rfl rfl fun i p => at_congr (fun item => ?_) fun result => ?_
      · rw [EditState.inLine, EditState.inLine, hw]
        simp [EditState.finishes]
      · rw [hw]
        exact iff_of_false (fun h => by cases h) fun h => by cases h
  | runEdit source workers hw hread hrun =>
      rename_i id item result w'
      have hnodup := ha.nodup
      rw [pendingIds_eq, EditState.inLine, hw] at hnodup
      refine ht.move id (fun i hne => ⟨rfl, ?_, fun p => at_congr (fun item' => ?_) fun result' => ?_⟩) ?_
      · exact trail_cons_other (by simp [Event.about, Ne.symm hne]) _
      · rw [EditState.inLine, EditState.inLine, hw]
        show _ ∈ [Queued.edit id item] ++ s.queue ↔ _ ∈ [] ++ s.queue
        simp [hne]
      · rw [hw]
        exact iff_of_false (fun h => by cases h) fun h => by cases h; exact hne rfl
      · obtain ⟨place, hplace, hl⟩ := ht id
        have hat : At s id (.line item) := by
          show _ ∈ s.inLine
          rw [EditState.inLine, hw]
          exact List.mem_cons_self
        rw [at_unique ha.nodup hplace hat] at hl
        refine ⟨.hand result, rfl, ?_⟩
        show Life cfg id (s.handlers id) _ (trail id (_ :: s.log))
        rw [trail_cons_self (by simp [Event.about])]
        exact hl.runs rfl (workItem_edit_cases hread hrun)
  | setEvent hw hid =>
      rename_i id result h
      have hids : s.pendingIds = id :: s.queue.filterMap Queued.editId := by
        rw [EditState.pendingIds, hw]
        rfl
      have hnodup := ha.nodup
      rw [hids, List.nodup_cons] at hnodup
      refine ht.move id (fun i hne => ⟨Function.update_of_ne hne .., rfl, fun p =>
        at_congr (fun item' => ?_) fun result' => ?_⟩) ?_
      · rw [EditState.inLine, EditState.inLine, hw]
        rfl
      · rw [hw]
        exact iff_of_false (fun h => by cases h; exact hne rfl) fun h => by cases h
      · obtain ⟨place, hplace, hl⟩ := ht id
        rw [at_unique ha.nodup hplace (q := .hand result) hw, hid] at hl
        refine ⟨.nowhere, hnodup.1, ?_⟩
        show Life cfg id (Function.update s.handlers id _ id) _ _
        rw [Function.update_self]
        exact hl.replied
  | advance n => exact ht.same rfl rfl fun _ _ => id

theorem Steps.tracked (hs : Steps env cfg s s') (ha : Accounted s) (ht : Tracked cfg s) : Tracked cfg s' := by
  induction hs with
  | refl => exact ht
  | tail hbefore hstep ih => exact hstep.tracked (Steps.accounted hbefore ha) ih

/-- **A step keeps a request and its answer.** -/
theorem EditStep.answer_kept (hs : EditStep env cfg s s') {answer : Answer} (hid : s.handlers id = some h)
    (ha : h.answer = some answer) :
    ∃ h', s'.handlers id = some h' ∧ h'.request = h.request ∧ h'.answer = some answer := by
  have hother : ∀ {i : ℕ} {h₀ h₁ : Handler} {t : EditState}, s.handlers i = some h₀ →
      t.handlers = Function.update s.handlers i (some h₁) → h₁.request = h₀.request →
      (h₀.answer = some answer → h₁.answer = some answer) →
      ∃ h', t.handlers id = some h' ∧ h'.request = h.request ∧ h'.answer = some answer := by
    intro i h₀ h₁ t hi ht hrequest hanswer
    rw [ht]
    by_cases heq : id = i
    · subst heq
      rw [hid] at hi
      cases hi
      exact ⟨h₁, Function.update_self .., hrequest, hanswer ha⟩
    · exact ⟨h, by rw [Function.update_of_ne heq]; exact hid, rfl, ha⟩
  cases hs with
  | connect i request hi =>
      have hne : id ≠ i := by
        rintro rfl
        rw [hid] at hi
        cases hi
      exact ⟨h, (Function.update_of_ne hne ..).trans hid, rfl, ha⟩
  | reject i hi hp hc => exact hother hi rfl rfl fun h => by rw [Handler.answer, hp] at h; cases h
  | busy i hi hp hc hn => exact hother hi rfl rfl fun h => by rw [Handler.answer, hp] at h; cases h
  | acquire i hi hp hc hn => exact hother hi rfl rfl fun h => by rw [Handler.answer, hp] at h; cases h
  | enqueue i hi hp => exact hother hi rfl rfl fun h => by rw [Handler.answer, hp] at h; cases h
  | wake i hi hp he => exact hother hi rfl rfl fun h => by rw [Handler.answer, hp] at h; cases h
  | giveUp i hi hp he ht => exact hother hi rfl rfl fun h => by rw [Handler.answer, hp] at h; cases h
  | release i hi hp => exact hother hi rfl rfl fun h => by rw [Handler.answer, hp] at h; exact h
  | setEvent hw hi => exact hother hi rfl rfl fun h => h
  | post item hi => exact ⟨h, hid, rfl, ha⟩
  | take hw hq => exact ⟨h, hid, rfl, ha⟩
  | stop hw => exact ⟨h, hid, rfl, ha⟩
  | runEvent source workers hw hi => exact ⟨h, hid, rfl, ha⟩
  | runEdit source workers hw hread hrun => exact ⟨h, hid, rfl, ha⟩
  | advance n => exact ⟨h, hid, rfl, ha⟩

theorem Steps.answer_kept (hs : Steps env cfg s s') {answer : Answer} (hid : s.handlers id = some h)
    (ha : h.answer = some answer) :
    ∃ h', s'.handlers id = some h' ∧ h'.request = h.request ∧ h'.answer = some answer := by
  induction hs with
  | refl => exact ⟨h, hid, rfl, ha⟩
  | tail _ hstep ih =>
      obtain ⟨h₁, hid₁, hrequest, ha₁⟩ := ih
      obtain ⟨h₂, hid₂, hrequest₂, ha₂⟩ := hstep.answer_kept hid₁ ha₁
      exact ⟨h₂, hid₂, hrequest₂.trans hrequest, ha₂⟩

/-! ### What each answer implies -/

/-- The run an entry of the log records. -/
def Event.run : Event → Option EditRun
  | .ran _ run => some run
  | _ => none

/-- The runs of the edit of one request, newest first. -/
def runsOf (id : ℕ) (log : List Event) : List EditRun := (trail id log).filterMap Event.run

/-- What an answer to a request says about the history of the endpoint.

* 200: the edit was run exactly once, between its enqueue and the answer, and that run committed it with the tags of
  the answer;
* 404, 500, or 503 for an expired deadline: it was run exactly once and nothing of it stayed;
* 503 for a wait that timed out: it is run at most once, and if that run commits it, its deadline was tested in time;
* 503 for want of a permit, 400, 413, 404 for a wrong path: it is never enqueued. -/
def Upheld (cfg : Config) (id : ℕ) (request : Request) (log : List Event) : Answer → Prop
  | .served result => ∃ run, runsOf id log = [run] ∧ run.result = result ∧ Asks cfg request run.item ∧
      List.Sublist [.answered id (.served result), .ran id run, .enqueued id run.item] log ∧
      if result.status = .ok then run.Committed else run.Dropped
  | .timedOut => (runsOf id log).length ≤ 1 ∧ ∀ run ∈ runsOf id log, Asks cfg request run.item ∧
      Event.enqueued id run.item ∈ log ∧ (run.Committed ∧ run.checkedAt ≤ run.item.deadline ∨ run.Dropped)
  | .busy => (∀ item, Event.enqueued id item ∉ log) ∧ runsOf id log = []
  | .rejected _ => (∀ item, Event.enqueued id item ∉ log) ∧ runsOf id log = []

theorem mem_trail_enqueued {item : TagEditItem} : Event.enqueued id item ∈ trail id log ↔ .enqueued id item ∈ log := by
  rw [trail, List.mem_filter]
  simp [Event.about]

/-- An abandoned edit that the worker has run. -/
theorem upheld_timedOut {request : Request} {run : EditRun} (hr : run.Upright cfg request)
    (hruns : runsOf id log = [run]) (hmem : Event.enqueued id run.item ∈ log) :
    Upheld cfg id request log .timedOut := by
  rw [Upheld, hruns]
  refine ⟨Nat.le_refl _, fun run' hrun' => ?_⟩
  rw [List.mem_singleton.mp hrun']
  refine ⟨hr.asked, hmem, ?_⟩
  cases hr.outcome with
  | inl hc => exact Or.inl ⟨hc, Int.not_lt.mp hc.2.1⟩
  | inr hd => exact Or.inr hd

/-- **A stage with an answer upholds it.** -/
theorem Life.upheld {answer : Answer} (hl : Life cfg id (some h) place (trail id log)) (ha : h.answer = some answer) :
    Upheld cfg id h.request log answer := by
  have hsub : (trail id log).Sublist log := List.filter_sublist
  have hmem := fun item => @mem_trail_enqueued id log item
  have hruns : runsOf id log = (trail id log).filterMap Event.run := rfl
  generalize trail id log = entries at hl hsub hmem hruns
  cases hl with
  | reading hp he => rw [Handler.answer, hp] at ha; cases ha
  | admitted hp he hc => rw [Handler.answer, hp] at ha; cases ha
  | waiting hp he hi => rw [Handler.answer, hp] at ha; cases ha
  | waitingRan hp he hr => rw [Handler.answer, hp] at ha; cases ha
  | waitingSet hp he hr => rw [Handler.answer, hp] at ha; cases ha
  | refused hp hanswer =>
      rw [Handler.answer, hp] at ha
      cases ha
      have hnever : (∀ item, Event.enqueued id item ∉ log) ∧ runsOf id log = [] :=
        ⟨fun item hin => by simpa using (hmem item).mpr hin, hruns⟩
      cases hanswer with
      | inl hbusy => rw [hbusy]; exact hnever
      | inr hrejected =>
          obtain ⟨why, rfl⟩ := hrejected
          exact hnever
  | served ha' hr =>
      rw [ha] at ha'
      cases ha'
      refine ⟨_, hruns, rfl, hr.asked, hsub, ?_⟩
      cases hr.outcome with
      | inl hc => rw [if_pos hc.1]; exact hc
      | inr hd => rw [if_neg hd.1]; exact hd
  | gone ha' he hi =>
      rw [Handler.hasTimedOut, ha] at ha'
      cases ha'
      rw [Upheld, hruns]
      exact ⟨Nat.zero_le _, fun run hrun => absurd hrun List.not_mem_nil⟩
  | goneRan ha' he hr hl =>
      rw [Handler.hasTimedOut, ha] at ha'
      cases ha'
      refine upheld_timedOut hr (hruns.trans ?_) ((hmem _).mp (List.mem_append_right _ List.mem_cons_self))
      cases hl with
      | inl hl => rw [hl]; rfl
      | inr hl => rw [hl]; rfl
  | goneSet ha' hr hl =>
      rw [Handler.hasTimedOut, ha] at ha'
      cases ha'
      refine upheld_timedOut hr (hruns.trans ?_) ((hmem _).mp (List.mem_append_right _ List.mem_cons_self))
      cases hl with
      | inl hl => rw [hl]; rfl
      | inr hl => rw [hl]; rfl

/-- **Replies are sound.**  Whatever answer a request was given in a run of the endpoint, the history of the run upholds
it from then on. -/
theorem replies_sound {w : World} (hs : Steps env cfg (EditState.initial cfg w) s) (hs' : Steps env cfg s s')
    {answer : Answer} (hid : s.handlers id = some h) (ha : h.answer = some answer) :
    Upheld cfg id h.request s'.log answer := by
  obtain ⟨h', hid', hrequest, ha'⟩ := hs'.answer_kept hid ha
  have htracked := Steps.tracked (hs.trans hs') (accounted_initial cfg w) (tracked_initial cfg w)
  obtain ⟨place, _, hlife⟩ := htracked id
  rw [hid'] at hlife
  rw [← hrequest]
  exact hlife.upheld ha'

/-- On a connection that works, the tags of a committed edit can be read. -/
theorem readsBack_of_quiet {w : World} (hq : w.Quiet) (item : TagEditItem) : ReadsBack env item w := by
  intro t w₁ fileId w₂ w₃ htick hlookup hupdate
  obtain rfl : w.tickClock = w₁ := (Prod.ext_iff.mp htick).2
  have hq₂ : w₂.Quiet := by
    cases hb : bindError (dimsParams item.dims) with
    | some e =>
        rw [lookupFileId, query_unbound hq.tickClock hb] at hlookup
        cases hlookup
    | none =>
        rw [lookupFileId, query_ok hq.tickClock hb] at hlookup
        have hsame : w.tickClock = w₂ := (Prod.ext_iff.mp hlookup).2
        rw [← hsame]
        exact hq
  rcases updateTags_cases env hq₂ fileId item.setTags item.unsetKeys with ⟨hrun, _⟩ | ⟨e, hrun⟩
  · rw [hrun] at hupdate
    cases hupdate
    exact congrArg Prod.fst (next_quiet (hq₂.tickClock.setWorking _).commitWorking)
  · rw [hrun] at hupdate
    cases hupdate

/-- **An idle worker serves a request** that passes the checks while a permit is free. -/
theorem steps_served (source : Source) (workers : Workers) {request : Request} {edit : Edit} {n : ℕ}
    (hq : s.world.Quiet) (hworker : s.worker = .idle) (hqueue : s.queue = []) (hid : s.handlers id = none)
    (hc : checkRequest cfg.repr request = .ok edit) (hn : s.permits = n + 1) :
    ∃ s' h' result, Steps env cfg s s' ∧ s'.handlers id = some h' ∧ h'.request = request ∧
      h'.answer = some (.served result) ∧
      (workItem env source workers (.tagEdit (edit.item (env.monotonic s.world.clock + cfg.deadlineSeconds)))
        s.world.tickClock).1 = .ok (some result) := by
  obtain ⟨h1, h2, h3⟩ := step_submits env cfg hid hc hn
  generalize hitem : edit.item (env.monotonic s.world.clock + cfg.deadlineSeconds) = item at h3 ⊢
  have hrun : ∃ result w', workItem env source workers (.tagEdit item) s.world.tickClock = (.ok (some result), w') := by
    rcases workItem_tagEdit env hq.tickClock source workers item with ⟨r, tags, _, _, hrun⟩ | ⟨reply, w', hrun, _⟩
    · exact ⟨_, _, hrun⟩
    · exact ⟨_, _, hrun⟩
  obtain ⟨result, w', hrun⟩ := hrun
  have hsubmitted : (s.submits env cfg id request edit n).handlers id =
        some ⟨request, .waiting item s.world.clock, none⟩ ∧
      (s.submits env cfg id request edit n).worker = .idle ∧
      (s.submits env cfg id request edit n).queue = [.edit id item] ∧
      (s.submits env cfg id request edit n).world = s.world.tickClock := by
    rw [EditState.submits, hitem]
    refine ⟨Function.update_self .., hworker, ?_, rfl⟩
    show s.queue ++ [_] = _
    rw [hqueue]
    rfl
  generalize s.submits env cfg id request edit n = t₁ at h3 hsubmitted
  obtain ⟨hh, hw, hqu, hworld⟩ := hsubmitted
  have h4 : EditStep env cfg t₁ (t₁.takes (.edit id item) []) := EditStep.take t₁ hw hqu
  have h5 : EditStep env cfg (t₁.takes (.edit id item) []) ((t₁.takes (.edit id item) []).runs id
      ⟨item, env.monotonic t₁.world.clock, t₁.world.conn, w'.conn, result⟩ w') := EditStep.runEdit _ source workers rfl
    (show ReadsBack env item t₁.world by rw [hworld]; exact readsBack_of_quiet hq.tickClock item)
    (show workItem env source workers (.tagEdit item) t₁.world = _ by rw [hworld]; exact hrun)
  generalize hran : (t₁.takes (.edit id item) []).runs id _ w' = t₂ at h5
  have hh₂ : t₂.handlers id = some ⟨request, .waiting item s.world.clock, none⟩ := by rw [← hran]; exact hh
  have hw₂ : t₂.worker = .ran id result := by rw [← hran]; rfl
  have h6 : EditStep env cfg t₂ (t₂.replies id ⟨request, .waiting item s.world.clock, none⟩ result) :=
    EditStep.setEvent t₂ hw₂ hh₂
  have hset : (t₂.replies id ⟨request, .waiting item s.world.clock, none⟩ result).handlers id =
      some ⟨request, .waiting item s.world.clock, some result⟩ := Function.update_self ..
  have h7 : EditStep env cfg (t₂.replies id ⟨request, .waiting item s.world.clock, none⟩ result) _ :=
    EditStep.wake _ id hset rfl rfl
  refine ⟨_, ⟨request, .answered (.served result), some result⟩, result,
    ((((((Relation.ReflTransGen.single h1).tail h2).tail h3).tail h4).tail h5).tail h6).tail h7,
    Function.update_self .., rfl, rfl, ?_⟩
  rw [hrun]

/-- **A fresh endpoint serves its first request.** -/
theorem steps_served_initial (env : Env) {w : World} (source : Source) (workers : Workers) {request : Request} {edit : Edit}
    (hq : w.Quiet) (hc : checkRequest cfg.repr request = .ok edit) (hn : 0 < cfg.maxPending) :
    ∃ s h result, Steps env cfg (EditState.initial cfg w) s ∧ s.handlers 0 = some h ∧ h.request = request ∧
      h.answer = some (.served result) ∧
      (workItem env source workers (.tagEdit (edit.item (env.monotonic w.clock + cfg.deadlineSeconds)))
        w.tickClock).1 = .ok (some result) :=
  steps_served (n := cfg.maxPending - 1) source workers hq rfl rfl rfl hc
    (show cfg.maxPending = cfg.maxPending - 1 + 1 by omega)

end Steps

/-- A request to tag the example recording. -/
def sampleRequest : Request where
  path := py "/update_tags"
  contentLength := .value 100
  body := .ok (some (.object [(py "key", .string sampleKey), (py "set_tags", .object [(py "note", .string (py "x"))])]))

/-- The edit it asks for. -/
def sampleEdit : Edit := ⟨sampleDims, [(py "note", py "x")], []⟩

theorem checkRequest_sampleRequest : checkRequest (fun s => s) sampleRequest = .ok sampleEdit := by
  decide +kernel

/-- The default endpoint, which quotes a key as it is. -/
def defaultConfig : Config := ⟨5, 32, fun s => s⟩

/-- The worker completes the edit that is enqueued right after the recording was cataloged. -/
theorem status_sampleEdit (result : TagEditResult)
    (h : (workItem oneTopicEnv (s3Source (fun _ => oneObjectBucket) []) .one
      (.tagEdit (sampleEdit.item (oneTopicEnv.monotonic afterOneCatalog.clock + defaultConfig.deadlineSeconds)))
      afterOneCatalog.tickClock).1 = .ok (some result)) : result.status = .ok := by
  have hstatus : ((workItem oneTopicEnv (s3Source (fun _ => oneObjectBucket) []) .one
      (.tagEdit (sampleEdit.item (oneTopicEnv.monotonic afterOneCatalog.clock + defaultConfig.deadlineSeconds)))
      afterOneCatalog.tickClock).1.toOption.join.map TagEditResult.status) = some .ok := by decide +kernel
  rw [h] at hstatus
  exact Option.some.inj hstatus

/-- **A served request.** -/
theorem replies_sound_sample : ∃ s h result, Steps oneTopicEnv defaultConfig
    (EditState.initial defaultConfig afterOneCatalog) s ∧ s.handlers 0 = some h ∧ h.answer = some (.served result) ∧
      Answer.code (.served result) = some 200 ∧ Upheld defaultConfig 0 h.request s.log (.served result) := by
  have hempty : afterOneCatalog.conn.faults.isEmpty = true := by decide +kernel
  have hq : afterOneCatalog.Quiet := List.isEmpty_iff.mp hempty
  have hpermits : 0 < defaultConfig.maxPending := by decide
  obtain ⟨s, h, result, hrun, hid, _, ha, hresult⟩ := steps_served_initial oneTopicEnv
    (s3Source (fun _ => oneObjectBucket) []) .one hq checkRequest_sampleRequest hpermits
  have hstatus : result.status = .ok := status_sampleEdit result hresult
  refine ⟨s, h, result, hrun, hid, ha, ?_, replies_sound hrun Relation.ReflTransGen.refl hid ha⟩
  rw [Answer.code, hstatus]

end McapCatalog.TagIpc
