import McapCatalog.TreeChanges

/-!
# The events of a watched tree

What the handler puts on the queue while it is called back for one change after the other, whatever its timers do in between.

* `stamped` — the events put so far, each with the number of callbacks that had begun;
* `Filed` — events are of changes that have happened, in their order;
* `Owes` — each change has its event, or a timer or a callback in progress is on the way to it;
* `Tracked` — **both hold in every run** of the handler, by `Tracked.begins` and `Tracked.moves`.
-/

namespace McapCatalog.WatchPath

open McapCatalog.PyText McapCatalog.PyError McapCatalog.KeyParse McapCatalog.McapSummary McapCatalog.Storage
open McapCatalog.Tables McapCatalog.RowidTable McapCatalog.KeyedRows
open McapCatalog.Connection McapCatalog.CatalogDb McapCatalog.Builder McapCatalog.Reconcile McapCatalog.Worker McapCatalog.Runs
open McapCatalog.LocalFiles McapCatalog.EventPath McapCatalog.Debounce
open McapCatalog.Discovery (FsEvent isCatalogable)
open Relation

/-! ### What is put -/

/-- Callbacks that have begun are counted, and an event that is put gets their number. -/
def note (acc : ℕ × List (ℕ × WorkItem)) : Entry → ℕ × List (ℕ × WorkItem)
  | .began _ => (acc.1 + 1, acc.2)
  | .ended _ => acc
  | .put item => (acc.1, acc.2 ++ [(acc.1, item)])

/-- How many callbacks a log has begun. -/
def begun (log : List Entry) : ℕ := (log.foldl note (0, [])).1

/-- The events it has put, each with the number of callbacks that had begun. -/
def stamped (log : List Entry) : List (ℕ × WorkItem) := (log.foldl note (0, [])).2

section Log

variable {log : List Entry} {c : Callback} {item : WorkItem}

@[simp] theorem begun_began : begun (log ++ [.began c]) = begun log + 1 := by rw [begun, List.foldl_append]; rfl

@[simp] theorem begun_ended : begun (log ++ [.ended c]) = begun log := by rw [begun, List.foldl_append]; rfl

@[simp] theorem begun_put : begun (log ++ [.put item]) = begun log := by rw [begun, List.foldl_append]; rfl

@[simp] theorem stamped_began : stamped (log ++ [.began c]) = stamped log := by rw [stamped, List.foldl_append]; rfl

@[simp] theorem stamped_ended : stamped (log ++ [.ended c]) = stamped log := by rw [stamped, List.foldl_append]; rfl

@[simp] theorem stamped_put : stamped (log ++ [.put item]) = stamped log ++ [(begun log, item)] := by
  rw [stamped, List.foldl_append]
  rfl

end Log

/-- A path below the root at which a change of a recording happens. -/
def Known (h : TreeHistory) (watch : Watch) (path : PyStr) : Prop :=
  ∃ key c, c ∈ h.changes ∧ c.2.touches key = true ∧ isCatalogable key = true ∧ path = watch.absPath key

/-- An event is of a known path, and a deletion is of the departure that had begun last. -/
def Founded (h : TreeHistory) (watch : Watch) (e : ℕ × WorkItem) : Prop :=
  ∃ path, Known h watch path ∧ (e.2 = .catalog path ∨ e.2 = .delete path ∧
    ∃ n c, e.1 = n + 1 ∧ h.changes[n]? = some c ∧ (c.2.callback watch).leaves path = true)

/-- **What is put is founded**, in the order of the callbacks, and timers are of known paths. -/
structure Filed (h : TreeHistory) (watch : Watch) (log : List Entry) (timers : List Timer) : Prop where
  timers : ∀ t ∈ timers, Known h watch t.path
  stamps : ∀ e ∈ stamped log, e.1 ≤ begun log
  sorted : (stamped log).Pairwise fun e e' => e.1 ≤ e'.1
  events : ∀ e ∈ stamped log, Founded h watch e

/-- What is in progress: a callback, with what is left of its body. -/
abbrev Progress : Type := Option (Callback × List Action)

/-- **Each change has its event, or is on the way to one.**  An arrival that no other callback of its path follows waits for
its timer unless its catalog event has been put since; a departure has its deletion ahead of it or has put it. -/
structure Owes (h : TreeHistory) (watch : Watch) (log : List Entry) (progress : Progress) : Prop where
  bound : begun log ≤ h.changes.length
  current : ∀ c rest, progress = some (c, rest) →
    ∃ n ch, begun log = n + 1 ∧ h.changes[n]? = some ch ∧ ch.2.callback watch = c
  arrived : ∀ path n ch, isCatalogable path = true → h.changes[n]? = some ch → n < begun log →
    (ch.2.callback watch).arrives path = true →
    (∀ m ch', n < m → m < begun log → h.changes[m]? = some ch' → (ch'.2.callback watch).touches path = false) →
    (n + 1 = begun log ∧ progress ≠ none) ∨ owed path log = true ∨ ∃ e ∈ stamped log, n < e.1 ∧ e.2 = .catalog path
  left : ∀ path n ch, isCatalogable path = true → h.changes[n]? = some ch → n < begun log →
    (ch.2.callback watch).leaves path = true →
    (n + 1 = begun log ∧ ∃ c rest, progress = some (c, rest) ∧ Action.put (.delete path) ∈ rest) ∨
      ∃ e ∈ stamped log, n < e.1 ∧ e.2 = .delete path

section Puts

variable {h : TreeHistory} {watch : Watch} {log : List Entry} {timers timers' : List Timer} {progress : Progress} {c : Callback}
  {a : Action} {rest : List Action} {ch : ℕ × Change} {path : PyStr} {item : WorkItem}

theorem Filed.began (hf : Filed h watch log timers) (c : Callback) : Filed h watch (log ++ [.began c]) timers := by
  refine ⟨hf.timers, ?_, ?_, ?_⟩
  · rw [stamped_began, begun_began]
    exact fun e he => (hf.stamps e he).trans (Nat.le_succ _)
  · rw [stamped_began]
    exact hf.sorted
  · rw [stamped_began]
    exact hf.events

theorem Filed.ended (hf : Filed h watch log timers) (c : Callback) : Filed h watch (log ++ [.ended c]) timers := by
  refine ⟨hf.timers, ?_, ?_, ?_⟩
  · rw [stamped_ended, begun_ended]
    exact hf.stamps
  · rw [stamped_ended]
    exact hf.sorted
  · rw [stamped_ended]
    exact hf.events

theorem Filed.put (hf : Filed h watch log timers) (hitem : Founded h watch (begun log, item)) :
    Filed h watch (log ++ [.put item]) timers := by
  refine ⟨hf.timers, ?_, ?_, ?_⟩
  · rw [stamped_put, begun_put]
    intro e he
    cases List.mem_append.mp he with
    | inl hold => exact hf.stamps e hold
    | inr hnew => rw [List.mem_singleton.mp hnew]
  · rw [stamped_put]
    refine List.pairwise_append.mpr ⟨hf.sorted, List.pairwise_singleton _ _, fun e he e' he' => ?_⟩
    rw [List.mem_singleton.mp he']
    exact hf.stamps e he
  · rw [stamped_put]
    intro e he
    cases List.mem_append.mp he with
    | inl hold => exact hf.events e hold
    | inr hnew =>
        rw [List.mem_singleton.mp hnew]
        exact hitem

/-- **A callback begins**, that of the next change. -/
theorem Owes.began (ho : Owes h watch log none) (hch : h.changes[begun log]? = some ch) :
    Owes h watch (log ++ [.began (ch.2.callback watch)]) (some (ch.2.callback watch, (ch.2.callback watch).body)) := by
  refine ⟨?_, fun c rest hcur => ?_, fun path n ch' hp hn hlt harrives hlast => ?_, fun path n ch' hp hn hlt hleaves => ?_⟩
  · rw [begun_began]
    exact (List.getElem?_eq_some_iff.mp hch).1
  · cases hcur
    exact ⟨begun log, ch, begun_began, hch, rfl⟩
  · rw [begun_began] at hlt hlast ⊢
    rw [owed_began, stamped_began]
    by_cases hnew : n = begun log
    · exact Or.inl ⟨by rw [hnew], fun hnone => by cases hnone⟩
    · have hother : (ch.2.callback watch).touches path = false := hlast _ ch (by omega) (by omega) hch
      rw [hother, Bool.not_false, Bool.and_true]
      have hold := ho.arrived path n ch' hp hn (by omega) harrives fun m ch'' hm hm' => hlast m ch'' hm (by omega)
      exact Or.inr (hold.resolve_left fun hin => hin.2 rfl)
  · rw [begun_began] at hlt ⊢
    rw [stamped_began]
    by_cases hnew : n = begun log
    · rw [hnew, hch] at hn
      cases hn
      exact Or.inl ⟨by rw [hnew], _, _, rfl, Callback.put_of_leaves hp hleaves⟩
    · refine Or.inr ((ho.left path n ch' hp hn (by omega) hleaves).resolve_left fun hin => ?_)
      obtain ⟨_, _, _, hnone, _⟩ := hin
      cases hnone

/-- A lock section of the callback in progress. -/
theorem Owes.acted (ho : Owes h watch log (some (c, a :: rest))) (ha : ∀ item, a ≠ .put item) :
    Owes h watch log (some (c, rest)) := by
  refine ⟨ho.bound, fun c' rest' hcur => ?_, fun path n ch hp hn hlt harrives hlast => ?_, fun path n ch hp hn hlt hleaves => ?_⟩
  · cases hcur
    exact ho.current c _ rfl
  · rcases ho.arrived path n ch hp hn hlt harrives hlast with hin | howed | hput
    · exact Or.inl ⟨hin.1, fun hnone => by cases hnone⟩
    · exact Or.inr (Or.inl howed)
    · exact Or.inr (Or.inr hput)
  · cases ho.left path n ch hp hn hlt hleaves with
    | inr hput => exact Or.inr hput
    | inl hin =>
        obtain ⟨hn', c', rest', hcur, hmem⟩ := hin
        cases hcur
        cases List.mem_cons.mp hmem with
        | inl heq => exact absurd heq.symm (ha _)
        | inr hin' => exact Or.inl ⟨hn', c, rest, rfl, hin'⟩

/-- A put of the callback in progress: a deletion. -/
theorem Owes.puts (ho : Owes h watch log (some (c, .put (.delete path) :: rest))) :
    Owes h watch (log ++ [.put (.delete path)]) (some (c, rest)) := by
  refine ⟨by rw [begun_put]; exact ho.bound, fun c' rest' hcur => ?_, fun path' n ch hp hn hlt harrives hlast => ?_,
    fun path' n ch hp hn hlt hleaves => ?_⟩
  · cases hcur
    rw [begun_put]
    exact ho.current c _ rfl
  · rw [begun_put] at hlt hlast ⊢
    rw [owed_put, stamped_put]
    rcases ho.arrived path' n ch hp hn hlt harrives hlast with hin | howed | ⟨e, he, hne, hitem⟩
    · exact Or.inl ⟨hin.1, fun hnone => by cases hnone⟩
    · exact Or.inr (Or.inl (by rw [howed]; rfl))
    · exact Or.inr (Or.inr ⟨e, List.mem_append_left _ he, hne, hitem⟩)
  · rw [begun_put] at hlt ⊢
    rw [stamped_put]
    cases ho.left path' n ch hp hn hlt hleaves with
    | inr hput =>
        obtain ⟨e, he, hne, hitem⟩ := hput
        exact Or.inr ⟨e, List.mem_append_left _ he, hne, hitem⟩
    | inl hin =>
        obtain ⟨hn', c', rest', hcur, hmem⟩ := hin
        cases hcur
        cases List.mem_cons.mp hmem with
        | inl heq =>
            cases heq
            exact Or.inr ⟨_, List.mem_append_right _ List.mem_cons_self, hlt, rfl⟩
        | inr hin' => exact Or.inl ⟨hn', c, rest, rfl, hin'⟩

/-- **The callback is over.** -/
theorem Owes.over (ho : Owes h watch log (some (c, []))) : Owes h watch (log ++ [.ended c]) none := by
  refine ⟨by rw [begun_ended]; exact ho.bound, fun c' rest' hcur => (by cases hcur),
    fun path n ch hp hn hlt harrives hlast => ?_, fun path n ch hp hn hlt hleaves => ?_⟩
  · rw [begun_ended] at hlt hlast ⊢
    rw [owed_ended, stamped_ended]
    rcases ho.arrived path n ch hp hn hlt harrives hlast with hin | howed | hput
    · obtain ⟨m, ch', hm, hch', hc⟩ := ho.current c [] rfl
      rw [show n = m by omega, hch'] at hn
      cases hn
      rw [← hc, harrives]
      exact Or.inr (Or.inl rfl)
    · rw [howed, Bool.or_true]
      exact Or.inr (Or.inl rfl)
    · exact Or.inr (Or.inr hput)
  · rw [begun_ended] at hlt ⊢
    rw [stamped_ended]
    refine Or.inr ((ho.left path n ch hp hn hlt hleaves).resolve_left fun hin => ?_)
    obtain ⟨_, _, _, hcur, hmem⟩ := hin
    cases hcur
    cases hmem

/-- A timer puts its event. -/
theorem Owes.fires (ho : Owes h watch log progress) (path : PyStr) :
    Owes h watch (log ++ [.put (.catalog path)]) progress := by
  refine ⟨by rw [begun_put]; exact ho.bound, by rw [begun_put]; exact ho.current,
    fun path' n ch hp hn hlt harrives hlast => ?_, fun path' n ch hp hn hlt hleaves => ?_⟩
  · rw [begun_put] at hlt hlast ⊢
    rw [owed_put, stamped_put]
    rcases ho.arrived path' n ch hp hn hlt harrives hlast with hin | howed | ⟨e, he, hne, hitem⟩
    · exact Or.inl hin
    · by_cases hpath : path = path'
      · rw [hpath]
        exact Or.inr (Or.inr ⟨_, List.mem_append_right _ List.mem_cons_self, hlt, rfl⟩)
      · refine Or.inr (Or.inl ?_)
        rw [howed, decide_eq_false fun heq => hpath (WorkItem.catalog.inj heq)]
        rfl
    · exact Or.inr (Or.inr ⟨e, List.mem_append_left _ he, hne, hitem⟩)
  · rw [begun_put] at hlt ⊢
    rw [stamped_put]
    cases ho.left path' n ch hp hn hlt hleaves with
    | inl hin => exact Or.inl hin
    | inr hput =>
        obtain ⟨e, he, hne, hitem⟩ := hput
        exact Or.inr ⟨e, List.mem_append_left _ he, hne, hitem⟩

end Puts

/-! ### The handler over a history -/

/-- The handler keeps its invariant, and what it has put and still owes is right. -/
structure Tracked (h : TreeHistory) (watch : Watch) (handler : Handler) : Prop where
  inv : Debounce.Inv handler
  filed : Filed h watch handler.log handler.timers
  owes : Owes h watch handler.log handler.current

section Handlers

variable {h : TreeHistory} {watch : Watch} {handler handler' : Handler} {c : Callback} {rest : List Action} {path : PyStr}

/-- A timer that is changed keeps its path. -/
theorem timers_modify {timers : List Timer} {f : Timer → Timer} (hf : ∀ t, (f t).path = t.path) {i : ℕ}
    (hknown : ∀ t ∈ timers, Known h watch t.path) : ∀ t ∈ timers.modify i f, Known h watch t.path := by
  intro t ht
  obtain ⟨j, hj⟩ := List.mem_iff_getElem?.mp ht
  rw [List.getElem?_modify] at hj
  obtain ⟨t', ht', heq⟩ := Option.map_eq_some_iff.mp hj
  have hmem := List.mem_of_getElem? ht'
  by_cases hij : i = j
  · rw [if_pos hij] at heq
    rw [← heq, hf]
    exact hknown t' hmem
  · rw [if_neg hij] at heq
    rw [← heq]
    exact hknown t' hmem

theorem timers_cancelRegistered (hknown : ∀ t ∈ handler.timers, Known h watch t.path) (path : PyStr) :
    ∀ t ∈ (handler.cancelRegistered path).timers, Known h watch t.path := by
  rw [Handler.cancelRegistered]
  split
  · exact hknown
  · exact timers_modify path_cancel hknown

theorem timers_enter (hknown : ∀ t ∈ handler.timers, Known h watch t.path) (i : ℕ) (phase : Debounce.Phase) :
    ∀ t ∈ (handler.enter i phase).timers, Known h watch t.path :=
  timers_modify (f := fun t => { t with phase := phase }) (fun _ => rfl) hknown

/-- What the callback of a change schedules is known. -/
theorem known_of_schedule {ch : ℕ × Change} (hch : ch ∈ h.changes)
    (hmem : Action.schedule path ∈ (ch.2.callback watch).body) : Known h watch path := by
  have hproper := h.proper ch hch
  have hknown : ∀ key, ch.2.touches key = true → isCatalogable (watch.absPath key) = true →
      Known h watch (watch.absPath key) := fun key htouch hcat => by
    rw [isCatalogable_absPath watch (hproper.paths key htouch).head] at hcat
    exact ⟨key, ch, hch, htouch, hcat, rfl⟩
  rw [callback_eq hproper] at hmem
  cases hchange : ch.2 with
  | created key file | modified key file =>
      rw [hchange, Change.callbackAt, Callback.body] at hmem
      split at hmem
      · rename_i hcond
        rw [Bool.and_eq_true] at hcond
        have hpath : path = watch.absPath key := by simpa using hmem
        rw [hpath]
        exact hknown key (by rw [hchange]; simp [Change.touches, Change.effect]) hcond.2
      · cases hmem
  | deleted key =>
      rw [hchange, Change.callbackAt, Callback.body] at hmem
      split at hmem <;> simp at hmem
  | moved src dst file =>
      rw [hchange, Change.callbackAt, Callback.body, if_neg (by simp)] at hmem
      rcases List.mem_append.mp hmem with hmem | hmem
      · split at hmem <;> simp at hmem
      · split at hmem
        · rename_i hcat
          have hpath : path = watch.absPath dst := by simpa using hmem
          rw [hpath]
          exact hknown dst (by rw [hchange]; simp [Change.touches, Change.effect]) hcat
        · cases hmem

/-- What it puts is a deletion of a known path that it leaves. -/
theorem known_of_put {ch : ℕ × Change} (hch : ch ∈ h.changes) {item : WorkItem}
    (hmem : Action.put item ∈ (ch.2.callback watch).body) :
    ∃ path, item = .delete path ∧ Known h watch path ∧ (ch.2.callback watch).leaves path = true := by
  obtain ⟨path, hitem, hcat, hleaves⟩ := leaves_of_put hmem
  have hproper := h.proper ch hch
  have hsource : ∀ key, ch.2.touches key = true → path = watch.absPath key → Known h watch path := by
    rintro key htouch rfl
    rw [isCatalogable_absPath watch (hproper.paths key htouch).head] at hcat
    exact ⟨key, ch, hch, htouch, hcat, rfl⟩
  refine ⟨path, hitem, ?_, hleaves⟩
  rw [callback_eq hproper] at hleaves
  cases hchange : ch.2 with
  | created key file | modified key file =>
      rw [hchange] at hleaves
      cases hleaves
  | deleted key =>
      rw [hchange] at hleaves
      have hpath : watch.absPath key = path := of_decide_eq_true hleaves
      exact hsource key (by rw [hchange]; simp [Change.touches, Change.effect]) hpath.symm
  | moved src dst file =>
      have hapart := hproper.apart src dst file hchange
      rw [hchange] at hleaves
      have hpath : watch.absPath src = path := of_decide_eq_true hleaves
      exact hsource src (by rw [hchange]; simp [Change.touches, Change.effect, hapart.symm]) hpath.symm

theorem filed_goOn (handler : Handler) (hf : Filed h watch handler.log handler.timers) (c : Callback) (rest : List Action) :
    Filed h watch (handler.goOn c rest).log (handler.goOn c rest).timers := by
  cases rest with
  | nil => exact hf.ended c
  | cons a rest => exact hf

theorem owes_goOn (handler : Handler) (ho : Owes h watch handler.log (some (c, rest))) :
    Owes h watch (handler.goOn c rest).log (handler.goOn c rest).current := by
  cases rest with
  | nil => exact ho.over
  | cons a rest => exact ho

/-- **The watcher calls back** for the next change. -/
theorem Tracked.begins (ht : Tracked h watch handler) {ch : ℕ × Change} (hch : h.changes[begun handler.log]? = some ch)
    (hstep : step handler (.begin (ch.2.callback watch)) = some handler') : Tracked h watch handler' := by
  have hinv := ht.inv.step hstep
  rw [step] at hstep
  split at hstep
  · rename_i hcur
    cases hstep
    have howes := ht.owes
    rw [hcur] at howes
    exact ⟨hinv, filed_goOn { handler with log := _ } (ht.filed.began _) _ _,
      owes_goOn { handler with log := _ } (howes.began hch)⟩
  · cases hstep

/-- **Any other move** of the handler. -/
theorem Tracked.moves (ht : Tracked h watch handler) {m : Debounce.Move} (hm : ∀ c, m ≠ .begin c)
    (hstep : step handler m = some handler') : Tracked h watch handler' := by
  have hinv := ht.inv.step hstep
  cases m with
  | begin c => exact absurd rfl (hm c)
  | act =>
      rw [step] at hstep
      split at hstep
      · rename_i c a rest hcur
        cases hstep
        have howes := ht.owes
        rw [hcur] at howes
        obtain ⟨n, ch, hn, hch, hc⟩ := howes.current c _ rfl
        have hmem : a ∈ (ch.2.callback watch).body := by
          rw [hc]
          exact (ht.inv.current c _ hcur).2.1.subset List.mem_cons_self
        have hchanges := List.mem_of_getElem? hch
        refine ⟨hinv, filed_goOn (handler.perform a) ?_ _ _, owes_goOn (handler.perform a) ?_⟩
        · cases a with
          | schedule path =>
              show Filed h watch (handler.cancelRegistered path).log ((handler.cancelRegistered path).timers ++ _)
              rw [log_cancelRegistered]
              refine ⟨fun t htimer => ?_, ht.filed.stamps, ht.filed.sorted, ht.filed.events⟩
              cases List.mem_append.mp htimer with
              | inl hold => exact timers_cancelRegistered ht.filed.timers path t hold
              | inr hnew =>
                  rw [List.mem_singleton.mp hnew]
                  exact known_of_schedule hchanges hmem
          | cancel path =>
              show Filed h watch (handler.cancelRegistered path).log (handler.cancelRegistered path).timers
              rw [log_cancelRegistered]
              exact ⟨timers_cancelRegistered ht.filed.timers path, ht.filed.stamps, ht.filed.sorted, ht.filed.events⟩
          | put item =>
              obtain ⟨path, rfl, hknown, hleaves⟩ := known_of_put hchanges hmem
              exact ht.filed.put ⟨path, hknown, Or.inr ⟨rfl, n, ch, hn, hch, hleaves⟩⟩
        · cases a with
          | schedule path =>
              show Owes h watch (handler.cancelRegistered path).log _
              rw [log_cancelRegistered]
              exact howes.acted fun item heq => by cases heq
          | cancel path =>
              show Owes h watch (handler.cancelRegistered path).log _
              rw [log_cancelRegistered]
              exact howes.acted fun item heq => by cases heq
          | put item =>
              obtain ⟨path, rfl, _, _⟩ := known_of_put hchanges hmem
              exact howes.puts
      · cases hstep
  | start i =>
      rw [step] at hstep
      split at hstep
      · cases hstep
        exact ⟨hinv, ⟨timers_enter ht.filed.timers i .started, ht.filed.stamps, ht.filed.sorted, ht.filed.events⟩,
          ht.owes⟩
      · cases hstep
  | remove i =>
      rw [step] at hstep
      split at hstep
      · cases hstep
        exact ⟨hinv, ⟨timers_enter ht.filed.timers i .removed, ht.filed.stamps, ht.filed.sorted, ht.filed.events⟩,
          ht.owes⟩
      · cases hstep
  | put i =>
      rw [step] at hstep
      split at hstep
      · rename_i path htimer
        cases hstep
        have hknown := ht.filed.timers _ (List.mem_of_getElem? htimer)
        have hput : Filed h watch (handler.log ++ [.put (.catalog path)]) handler.timers :=
          ht.filed.put ⟨path, hknown, Or.inl rfl⟩
        exact ⟨hinv, ⟨timers_enter hput.timers i .done, hput.stamps, hput.sorted, hput.events⟩, ht.owes.fires path⟩
      · cases hstep

theorem tracked_idle (h : TreeHistory) (watch : Watch) : Tracked h watch Handler.idle where
  inv := inv_idle
  filed := ⟨fun t ht => absurd ht List.not_mem_nil, fun e he => absurd he List.not_mem_nil, List.Pairwise.nil,
    fun e he => absurd he List.not_mem_nil⟩
  owes := ⟨Nat.zero_le _, fun c rest hcur => (by cases hcur), fun path n ch _ _ hlt => absurd hlt (Nat.not_lt_zero n),
    fun path n ch _ _ hlt => absurd hlt (Nat.not_lt_zero n)⟩

end Handlers

/-! ### What a move adds to the log -/

section Logs

variable {handler handler' : Handler} {log more : List Entry}

/-- What has been put stays put. -/
theorem stamped_prefix (log more : List Entry) : stamped log <+: stamped (log ++ more) := by
  induction more using List.reverseRecOn with
  | nil => exact ⟨[], by rw [List.append_nil, List.append_nil]⟩
  | append_singleton more e ih =>
      rw [← List.append_assoc]
      cases e with
      | began c => rw [stamped_began]; exact ih
      | ended c => rw [stamped_ended]; exact ih
      | put item => rw [stamped_put]; exact ih.trans (List.prefix_append _ _)

theorem begun_append (hnone : ∀ c, Entry.began c ∉ more) : begun (log ++ more) = begun log := by
  induction more using List.reverseRecOn with
  | nil => rw [List.append_nil]
  | append_singleton more e ih =>
      rw [← List.append_assoc]
      have hrest := ih fun c hc => hnone c (List.mem_append_left _ hc)
      cases e with
      | began c => exact absurd (List.mem_append_right _ List.mem_cons_self) (hnone c)
      | ended c => rw [begun_ended, hrest]
      | put item => rw [begun_put, hrest]

theorem log_goOn (handler : Handler) (c : Callback) (rest : List Action) :
    ∃ more, (handler.goOn c rest).log = handler.log ++ more ∧ ∀ c, Entry.began c ∉ more := by
  cases rest with
  | nil => exact ⟨[.ended c], rfl, fun c' hc' => by cases List.mem_singleton.mp hc'⟩
  | cons a rest => exact ⟨[], (List.append_nil _).symm, fun c' hc' => by cases hc'⟩

theorem log_perform (handler : Handler) (a : Action) :
    ∃ more, (handler.perform a).log = handler.log ++ more ∧ ∀ c, Entry.began c ∉ more := by
  cases a with
  | schedule path =>
      exact ⟨[], (log_cancelRegistered handler path).trans (List.append_nil _).symm, fun c hc => by cases hc⟩
  | cancel path =>
      exact ⟨[], (log_cancelRegistered handler path).trans (List.append_nil _).symm, fun c hc => by cases hc⟩
  | put item => exact ⟨[.put item], rfl, fun c hc => by cases List.mem_singleton.mp hc⟩

/-- A callback that begins is counted. -/
theorem log_begins {c : Callback} (hstep : step handler (.begin c) = some handler') :
    begun handler'.log = begun handler.log + 1 ∧ stamped handler.log <+: stamped handler'.log := by
  rw [step] at hstep
  split at hstep
  · cases hstep
    obtain ⟨more, hlog, hnone⟩ := log_goOn { handler with log := handler.log ++ [.began c] } c c.body
    rw [hlog]
    refine ⟨(begun_append hnone).trans begun_began, ?_⟩
    rw [List.append_assoc]
    exact stamped_prefix _ _
  · cases hstep

/-- Any other move begins none. -/
theorem log_moves {m : Debounce.Move} (hm : ∀ c, m ≠ .begin c) (hstep : step handler m = some handler') :
    begun handler'.log = begun handler.log ∧ stamped handler.log <+: stamped handler'.log := by
  have hmore : ∃ more, handler'.log = handler.log ++ more ∧ ∀ c, Entry.began c ∉ more := by
    cases m with
    | begin c => exact absurd rfl (hm c)
    | act =>
        rw [step] at hstep
        split at hstep
        · rename_i c a rest _
          cases hstep
          obtain ⟨more, hlog, hnone⟩ := log_perform handler a
          obtain ⟨more', hlog', hnone'⟩ := log_goOn (handler.perform a) c rest
          refine ⟨more ++ more', by rw [hlog', hlog, List.append_assoc], fun c' hc' => ?_⟩
          cases List.mem_append.mp hc' with
          | inl h => exact hnone c' h
          | inr h => exact hnone' c' h
        · cases hstep
    | start i | remove i =>
        rw [step] at hstep
        split at hstep
        · cases hstep
          exact ⟨[], (List.append_nil _).symm, fun c hc => by cases hc⟩
        · cases hstep
    | put i =>
        rw [step] at hstep
        split at hstep
        · cases hstep
          exact ⟨[_], rfl, fun c hc => by cases List.mem_singleton.mp hc⟩
        · cases hstep
  obtain ⟨more, hlog, hnone⟩ := hmore
  rw [hlog]
  exact ⟨begun_append hnone, stamped_prefix _ _⟩

end Logs

end McapCatalog.WatchPath
