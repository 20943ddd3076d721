import McapCatalog.Discovery

/-!
# The watcher's timers

`McapEventHandler` of `watcher.py` with its threads.  The observer thread runs the callbacks one after the other; each timer
runs `_fire_catalog` on a thread of its own, a removal under the lock and then a put, and a cancel that comes after the
timer has started its function does not stop it.

* `Handler`, `step` — the handler and its moves: one lock section or one put at a time, of whichever thread is next;
* `flag` — whether an entry of the log still waits for another one;
* `Inv` — a path whose arrival waits for its catalog event has a timer that will put it, although a timer may take away the
  registration of a later one;
* `no_lost_update` — **when every thread is at rest, the last callback of each path has had its event**;
* `Shows.handlerStep` — the handler whose callbacks and timers do not overlap is one of the interleavings.
-/

namespace McapCatalog.Debounce

open McapCatalog.PyText McapCatalog.KeyedRows McapCatalog.Worker McapCatalog.Discovery
open Relation

/-! ### The handler -/

/-- A callback of the observer thread. -/
inductive Callback where
  | created (event : FsEvent)
  | modified (event : FsEvent)
  | deleted (event : FsEvent)
  | moved (event : FsEvent)

/-- What a callback does at one moment: a section under the lock, or a put. -/
inductive Action where
  | schedule (path : PyStr)
  | cancel (path : PyStr)
  | put (item : WorkItem)

/-- The body of a callback. -/
def Callback.body : Callback → List Action
  | .created event | .modified event =>
    if !event.isDirectory && isCatalogable event.srcPath then [.schedule event.srcPath] else []
  | .deleted event =>
    if !event.isDirectory && isCatalogable event.srcPath then
      [.cancel event.srcPath, .put (.delete event.srcPath)]
    else []
  | .moved event =>
    if event.isDirectory then []
    else
      (if isCatalogable event.srcPath then [.put (.delete event.srcPath)] else []) ++
        if isCatalogable event.destPath then [.schedule event.destPath] else []

/-- The life of a `threading.Timer`: it waits, unless it is cancelled it starts its function, removes the registration of
its path, and puts its event. -/
inductive Phase where
  | waiting
  | cancelled
  | started
  | removed
  | done
  deriving DecidableEq

/-- `threading.Timer(self._debounce, self._fire_catalog, args=(path,))`. -/
structure Timer where
  path : PyStr
  phase : Phase
  deriving DecidableEq

/-- `Timer.cancel`. -/
def Timer.cancel (t : Timer) : Timer := if t.phase = .waiting then { t with phase := .cancelled } else t

/-- What happened, oldest first: a callback is over with its last action. -/
inductive Entry where
  | began (c : Callback)
  | ended (c : Callback)
  | put (item : WorkItem)

/-- `McapEventHandler`: the timers made so far, by number, `_timers`, the callback in progress with what is left of its body,
and what has happened. -/
structure Handler where
  timers : List Timer
  registered : Rows PyStr ℕ
  current : Option (Callback × List Action)
  log : List Entry

namespace Handler

/-- `McapEventHandler.__init__`. -/
def idle : Handler := ⟨[], ∅, none, []⟩

/-- `self._timers.pop(path, None)`, and the cancel of what was there. -/
def cancelRegistered (h : Handler) (path : PyStr) : Handler :=
  match h.registered.lookup path with
  | none => h
  | some i => { h with timers := h.timers.modify i Timer.cancel, registered := h.registered.erase path }

/-- One action of a callback. -/
def perform (h : Handler) : Action → Handler
  | .schedule path =>
    let h := h.cancelRegistered path
    { h with timers := h.timers ++ [⟨path, .waiting⟩], registered := h.registered.insert path h.timers.length }
  | .cancel path => h.cancelRegistered path
  | .put item => { h with log := h.log ++ [.put item] }

/-- The callback goes on with the rest of its body, or is over. -/
def goOn (h : Handler) (c : Callback) : List Action → Handler
  | [] => { h with current := none, log := h.log ++ [.ended c] }
  | a :: rest => { h with current := some (c, a :: rest) }

/-- The timer enters its next phase. -/
def enter (h : Handler) (i : ℕ) (phase : Phase) : Handler :=
  { h with timers := h.timers.modify i fun t => { t with phase := phase } }

end Handler

/-- Which thread moves, and how. -/
inductive Move where
  | begin (c : Callback)
  | act
  | start (i : ℕ)
  | remove (i : ℕ)
  | put (i : ℕ)

/-- One move, if the thread can make it. -/
def step (h : Handler) : Move → Option Handler
  | .begin c =>
    match h.current with
    | none => some (Handler.goOn { h with log := h.log ++ [.began c] } c c.body)
    | some _ => none
  | .act =>
    match h.current with
    | some (c, a :: rest) => some ((h.perform a).goOn c rest)
    | _ => none
  | .start i =>
    match h.timers[i]? with
    | some ⟨_, .waiting⟩ => some (h.enter i .started)
    | _ => none
  | .remove i =>
    match h.timers[i]? with
    | some ⟨path, .started⟩ => some { h.enter i .removed with registered := h.registered.erase path }
    | _ => none
  | .put i =>
    match h.timers[i]? with
    | some ⟨path, .removed⟩ => some { h.enter i .done with log := h.log ++ [.put (.catalog path)] }
    | _ => none

/-- The handlers that some interleaving reaches. -/
def Watched (h : Handler) : Prop := ReflTransGen (fun h h' => ∃ m, step h m = some h') Handler.idle h

/-- The timer will put its event. -/
def Timer.Live (t : Timer) : Prop := t.phase = .waiting ∨ t.phase = .started ∨ t.phase = .removed

instance (t : Timer) : Decidable t.Live := inferInstanceAs (Decidable (_ ∨ _))

/-- No timer is running, and no callback is in progress. -/
def Handler.AtRest (h : Handler) : Prop := (∀ t ∈ h.timers, ¬t.Live) ∧ h.current = none

/-! ### The callbacks of a path -/

/-- A file is created, modified or moved in at the path. -/
def Callback.arrives (path : PyStr) : Callback → Bool
  | .created event | .modified event => !event.isDirectory && event.srcPath = path
  | .deleted _ => false
  | .moved event => !event.isDirectory && event.destPath = path

/-- A file is deleted or moved out at the path. -/
def Callback.leaves (path : PyStr) : Callback → Bool
  | .created _ | .modified _ => false
  | .deleted event | .moved event => !event.isDirectory && event.srcPath = path

/-- The callback is about the path. -/
def Callback.touches (path : PyStr) (c : Callback) : Bool := c.arrives path || c.leaves path

/-- The last action of an arrival at a catalogable path schedules it. -/
theorem Callback.schedule_of_arrives {c : Callback} {path : PyStr} (hp : isCatalogable path = true)
    (h : c.arrives path = true) : ∃ before, c.body = before ++ [.schedule path] := by
  cases c with
  | created event | modified event =>
      simp only [Callback.arrives, Bool.and_eq_true, decide_eq_true_eq] at h
      refine ⟨[], ?_⟩
      rw [Callback.body, h.1, h.2, hp]
      rfl
  | deleted event => cases h
  | moved event =>
      simp only [Callback.arrives, Bool.and_eq_true, Bool.not_eq_true', decide_eq_true_eq] at h
      refine ⟨if isCatalogable event.srcPath then [.put (.delete event.srcPath)] else [], ?_⟩
      rw [Callback.body, h.1, if_neg Bool.false_ne_true, h.2, if_pos hp]

/-- A departure from a catalogable path puts a delete event. -/
theorem Callback.put_of_leaves {c : Callback} {path : PyStr} (hp : isCatalogable path = true)
    (h : c.leaves path = true) : Action.put (.delete path) ∈ c.body := by
  cases c with
  | created event | modified event => cases h
  | deleted event =>
      simp only [Callback.leaves, Bool.and_eq_true, decide_eq_true_eq] at h
      rw [Callback.body, h.1, h.2, hp]
      exact List.mem_cons_of_mem _ List.mem_cons_self
  | moved event =>
      simp only [Callback.leaves, Bool.and_eq_true, Bool.not_eq_true', decide_eq_true_eq] at h
      rw [Callback.body, h.1, if_neg Bool.false_ne_true, h.2, if_pos hp]
      exact List.mem_append_left _ List.mem_cons_self

/-- A callback cancels timers of its own paths only. -/
theorem Callback.touches_of_cancel {c : Callback} {path : PyStr} (h : Action.cancel path ∈ c.body) :
    c.touches path = true := by
  cases c with
  | created event | modified event =>
      rw [Callback.body] at h
      split at h <;> simp at h
  | deleted event =>
      rw [Callback.body] at h
      split at h
      · rename_i hc
        have hpath : path = event.srcPath := by simpa using h
        rw [Bool.and_eq_true] at hc
        rw [Callback.touches, Callback.leaves, hc.1, hpath]
        simp
      · cases h
  | moved event =>
      rw [Callback.body] at h
      split at h
      · cases h
      · rcases List.mem_append.mp h with h | h <;> split at h <;> simp at h

/-! ### Entries that wait -/

/-- Whether the last entry that raises the flag still waits for one that lowers it. -/
def flag (raises lowers : Entry → Bool) (log : List Entry) : Bool :=
  log.foldl (fun up e => raises e || up && !lowers e) false

section Flags

variable {raises lowers : Entry → Bool}

theorem flag_append (log : List Entry) (e : Entry) :
    flag raises lowers (log ++ [e]) = (raises e || flag raises lowers log && !lowers e) := by
  rw [flag, List.foldl_append]
  rfl

/-- **A lowered flag**: after each entry that raises it there is one that lowers it. -/
theorem lowered_of_flag {e : Entry} (hraises : raises e = true) (before : List Entry) (after : List Entry)
    (h : flag raises lowers (before ++ e :: after) = false) : ∃ e' ∈ after, lowers e' = true := by
  by_contra hnone
  have hup : flag raises lowers (before ++ e :: after) = true := by
    induction after using List.reverseRecOn with
    | nil => rw [flag_append, hraises]; rfl
    | append_singleton after e' ih =>
        rw [← List.cons_append, ← List.append_assoc, flag_append] at h ⊢
        have hnot : lowers e' = false := by
          cases hl : lowers e' with
          | false => rfl
          | true => exact absurd ⟨e', List.mem_append_right _ List.mem_cons_self, hl⟩ hnone
        have hold : flag raises lowers (before ++ e :: after) = false := by
          rw [hnot] at h
          simpa using (Bool.or_eq_false_iff.mp h).2
        rw [ih hold fun hex => hnone (by
          obtain ⟨e', he', hl⟩ := hex
          exact ⟨e', List.mem_append_left _ he', hl⟩)]
        simp [hnot]
  rw [hup] at h
  cases h

end Flags

/-! ### The invariant -/

/-- An arrival at the path waits for its catalog event; the next callback of the path takes over. -/
def owed (path : PyStr) : List Entry → Bool :=
  flag (fun | .ended c => c.arrives path | _ => false)
    (fun | .began c => c.touches path | .put item => item = .catalog path | _ => false)

/-- A departure from the path waits for its delete event. -/
def leaving (path : PyStr) : List Entry → Bool :=
  flag (fun | .began c => c.leaves path | _ => false) (fun | .put item => item = .delete path | _ => false)

section Waiting

variable {path : PyStr} {log : List Entry} {c : Callback} {item : WorkItem}

@[simp] theorem owed_began : owed path (log ++ [.began c]) = (owed path log && !c.touches path) := by
  rw [owed, flag_append, Bool.false_or]

@[simp] theorem owed_ended : owed path (log ++ [.ended c]) = (c.arrives path || owed path log) := by
  rw [owed, flag_append, Bool.not_false, Bool.and_true]

@[simp] theorem owed_put : owed path (log ++ [.put item]) = (owed path log && !decide (item = .catalog path)) := by
  rw [owed, flag_append, Bool.false_or]

@[simp] theorem leaving_began : leaving path (log ++ [.began c]) = (c.leaves path || leaving path log) := by
  rw [leaving, flag_append, Bool.not_false, Bool.and_true]

@[simp] theorem leaving_ended : leaving path (log ++ [.ended c]) = leaving path log := by
  rw [leaving, flag_append, Bool.false_or, Bool.not_false, Bool.and_true]

@[simp] theorem leaving_put : leaving path (log ++ [.put item]) = (leaving path log && !decide (item = .delete path)) := by
  rw [leaving, flag_append, Bool.false_or]

end Waiting

/-- A timer of the path will put its event. -/
def LiveAt (path : PyStr) (timers : List Timer) : Prop := ∃ t ∈ timers, t.path = path ∧ t.Live

/-- **The invariant**: a registration is of a timer of its path; what is left of a callback is the end of its body, and no
arrival at its paths is still waited for; an arrival that waits has a live timer, and a departure that waits has its put
ahead of it. -/
structure Inv (h : Handler) : Prop where
  registered : ∀ path i, h.registered.lookup path = some i → ∃ t, h.timers[i]? = some t ∧ t.path = path
  current : ∀ c rest, h.current = some (c, rest) →
    rest ≠ [] ∧ rest <:+ c.body ∧ ∀ path, c.touches path = true → owed path h.log = false
  live : ∀ path, isCatalogable path = true → owed path h.log = true → LiveAt path h.timers
  put : ∀ path, isCatalogable path = true → leaving path h.log = true →
    ∃ c rest, h.current = some (c, rest) ∧ Action.put (.delete path) ∈ rest

section Timers

variable {timers : List Timer} {f : Timer → Timer} {i : ℕ} {path : PyStr} {t : Timer}

/-- A timer keeps its path. -/
theorem path_of_modify (hf : ∀ t, (f t).path = t.path) (h : timers[i]? = some t) (j : ℕ) :
    ∃ t', (timers.modify j f)[i]? = some t' ∧ t'.path = t.path := by
  by_cases hij : j = i
  · exact ⟨f t, by rw [List.getElem?_modify, h, hij]; simp, hf t⟩
  · exact ⟨t, by rw [List.getElem?_modify, h]; simp [hij], rfl⟩

/-- A timer stays live in a change that keeps it live, or that is about another one. -/
theorem liveAt_modify (hf : ∀ t, (f t).path = t.path) (hlive : timers[i]? = some t → t.path = path → t.Live → (f t).Live)
    (hi : timers[i]? = some t) (h : LiveAt path timers) : LiveAt path (timers.modify i f) := by
  obtain ⟨t', ht', hpath, halive⟩ := h
  obtain ⟨j, hj⟩ := List.mem_iff_getElem?.mp ht'
  by_cases hij : i = j
  · have hsame : t' = t := by
      rw [← hij, hi] at hj
      exact (Option.some.inj hj).symm
    refine ⟨f t', List.mem_iff_getElem?.mpr ⟨j, by rw [List.getElem?_modify, hj, hij]; simp⟩, (hf t').trans hpath, ?_⟩
    rw [hsame] at hpath halive ⊢
    exact hlive hi hpath halive
  · exact ⟨t', List.mem_iff_getElem?.mpr ⟨j, by rw [List.getElem?_modify, hj]; simp [hij]⟩, hpath, halive⟩

theorem path_cancel (t : Timer) : t.cancel.path = t.path := by
  rw [Timer.cancel]
  split <;> rfl

end Timers

section Steps

variable {h h' : Handler} {path : PyStr} {c : Callback}

/-- A cancel of what is registered at one path spares the timers of the others. -/
theorem liveAt_cancelRegistered (hreg : ∀ path i, h.registered.lookup path = some i → ∃ t, h.timers[i]? = some t ∧ t.path = path)
    {other : PyStr} (hne : other ≠ path) (hlive : LiveAt path h.timers) :
    LiveAt path (h.cancelRegistered other).timers := by
  rw [Handler.cancelRegistered]
  split
  · exact hlive
  · rename_i i hi
    obtain ⟨t, ht, hpath⟩ := hreg other i hi
    exact liveAt_modify path_cancel (fun _ hp => absurd (hpath.symm.trans hp) hne) ht hlive

theorem registered_cancelRegistered
    (hreg : ∀ path i, h.registered.lookup path = some i → ∃ t, h.timers[i]? = some t ∧ t.path = path) (other : PyStr) :
    ∀ path i, (h.cancelRegistered other).registered.lookup path = some i →
      ∃ t, (h.cancelRegistered other).timers[i]? = some t ∧ t.path = path := by
  intro path i hi
  rw [Handler.cancelRegistered] at hi ⊢
  split
  · rename_i hnone
    rw [hnone] at hi
    exact hreg path i hi
  · rename_i j hj
    rw [hj] at hi
    dsimp only at hi ⊢
    have hne : path ≠ other := by
      rintro rfl
      rw [AList.lookup_erase] at hi
      cases hi
    rw [AList.lookup_erase_ne hne] at hi
    obtain ⟨t, ht, hpath⟩ := hreg path i hi
    obtain ⟨t', ht', hpath'⟩ := path_of_modify path_cancel ht j
    exact ⟨t', ht', hpath'.trans hpath⟩

theorem log_cancelRegistered (h : Handler) (path : PyStr) : (h.cancelRegistered path).log = h.log := by
  rw [Handler.cancelRegistered]
  split <;> rfl

/-- What holds in the middle of a callback with what is left of its body; at the end of it an arrival has its timer. -/
structure Midway (h : Handler) (c : Callback) (rest : List Action) : Prop where
  registered : ∀ path i, h.registered.lookup path = some i → ∃ t, h.timers[i]? = some t ∧ t.path = path
  suffix : rest <:+ c.body
  taken : ∀ path, c.touches path = true → owed path h.log = false
  live : ∀ path, isCatalogable path = true → owed path h.log = true ∨ rest = [] ∧ c.arrives path = true →
    LiveAt path h.timers
  put : ∀ path, isCatalogable path = true → leaving path h.log = true → Action.put (.delete path) ∈ rest

theorem Midway.goOn {rest : List Action} (hm : Midway h c rest) : Inv (h.goOn c rest) := by
  cases rest with
  | nil =>
      refine ⟨hm.registered, (fun _ _ hcur => by cases hcur), fun path hp howed => ?_, fun path hp hleaving => ?_⟩
      · have hentry : (c.arrives path || owed path h.log) = true := by rw [← owed_ended]; exact howed
        cases Bool.or_eq_true_iff.mp hentry with
        | inl harrives => exact hm.live path hp (Or.inr ⟨rfl, harrives⟩)
        | inr hold => exact hm.live path hp (Or.inl hold)
      · have hentry : leaving path h.log = true := by rw [← leaving_ended (c := c)]; exact hleaving
        exact absurd (hm.put path hp hentry) List.not_mem_nil
  | cons a rest =>
      refine ⟨hm.registered, fun c' rest' hcur => ?_, fun path hp howed => hm.live path hp (Or.inl howed),
        fun path hp hleaving => ⟨c, a :: rest, rfl, hm.put path hp hleaving⟩⟩
      cases hcur
      exact ⟨List.cons_ne_nil _ _, hm.suffix, hm.taken⟩

/-- **A callback begins.** -/
theorem Inv.began (hi : Inv h) (hcur : h.current = none) (c : Callback) :
    Midway { h with log := h.log ++ [.began c] } c c.body where
  registered := hi.registered
  suffix := List.suffix_refl _
  taken path ht := by rw [owed_began, ht, Bool.not_true, Bool.and_false]
  live path hp hwaits := by
    cases hwaits with
    | inl howed =>
        rw [owed_began, Bool.and_eq_true] at howed
        exact hi.live path hp howed.1
    | inr hover =>
        obtain ⟨before, hbody⟩ := Callback.schedule_of_arrives hp hover.2
        rw [hover.1] at hbody
        simp at hbody
  put path hp hleaving := by
    rw [leaving_began, Bool.or_eq_true] at hleaving
    cases hleaving with
    | inl hleaves => exact Callback.put_of_leaves hp hleaves
    | inr hold =>
        obtain ⟨c', rest, hcur', _⟩ := hi.put path hp hold
        rw [hcur] at hcur'
        cases hcur'

/-- The last action of an arrival is the scheduling. -/
theorem schedule_of_last {a : Action} (hsuffix : [a] <:+ c.body) (hp : isCatalogable path = true)
    (harrives : c.arrives path = true) : a = .schedule path := by
  obtain ⟨before, hbody⟩ := Callback.schedule_of_arrives hp harrives
  obtain ⟨front, hfront⟩ := hsuffix
  rw [hbody] at hfront
  exact (List.append_inj' hfront rfl).2 |> List.singleton_injective

/-- **An action of a callback.** -/
theorem Inv.performed (hi : Inv h) {a : Action} {rest : List Action} (hcur : h.current = some (c, a :: rest)) :
    Midway (h.perform a) c rest := by
  obtain ⟨_, hsuffix, htaken⟩ := hi.current c _ hcur
  have hrest : rest <:+ c.body := (List.suffix_cons a rest).trans hsuffix
  have hlast : ∀ path, isCatalogable path = true → rest = [] → c.arrives path = true → a = .schedule path :=
    fun path hp hnil harrives => schedule_of_last (hnil ▸ hsuffix) hp harrives
  have hput : ∀ path, isCatalogable path = true → leaving path h.log = true → Action.put (.delete path) ∈ a :: rest := by
    intro path hp hleaving
    obtain ⟨c', rest', hcur', hmem⟩ := hi.put path hp hleaving
    rw [hcur] at hcur'
    cases hcur'
    exact hmem
  cases a with
  | schedule other =>
      have hnew : LiveAt other ((h.cancelRegistered other).timers ++ [⟨other, .waiting⟩]) :=
        ⟨_, List.mem_append_right _ List.mem_cons_self, rfl, Or.inl rfl⟩
      refine ⟨fun path i hl => ?_, hrest, ?_, fun path hp hwaits => ?_, fun path hp hleaving => ?_⟩
      · show ∃ t, ((h.cancelRegistered other).timers ++ [⟨other, .waiting⟩])[i]? = some t ∧ t.path = path
        have hl : ((h.cancelRegistered other).registered.insert other (h.cancelRegistered other).timers.length).lookup path =
            some i := hl
        by_cases hpath : path = other
        · rw [hpath, AList.lookup_insert] at hl
          rw [← Option.some.inj hl, List.getElem?_concat_length]
          exact ⟨_, rfl, hpath.symm⟩
        · rw [AList.lookup_insert_ne hpath] at hl
          obtain ⟨t, ht, htp⟩ := registered_cancelRegistered hi.registered other path i hl
          have hlt : i < (h.cancelRegistered other).timers.length := (List.getElem?_eq_some_iff.mp ht).1
          exact ⟨t, by rw [List.getElem?_append_left hlt]; exact ht, htp⟩
      · show ∀ path, c.touches path = true → owed path (h.cancelRegistered other).log = false
        rw [log_cancelRegistered]
        exact htaken
      · show LiveAt path ((h.cancelRegistered other).timers ++ [⟨other, .waiting⟩])
        by_cases hpath : other = path
        · rw [← hpath]
          exact hnew
        cases hwaits with
        | inl howed =>
            have howed : owed path (h.cancelRegistered other).log = true := howed
            rw [log_cancelRegistered] at howed
            obtain ⟨t, ht, hlive⟩ := liveAt_cancelRegistered hi.registered hpath (hi.live path hp howed)
            exact ⟨t, List.mem_append_left _ ht, hlive⟩
        | inr hover =>
            have heq := hlast path hp hover.1 hover.2
            cases heq
            exact hnew
      · have hleaving : leaving path (h.cancelRegistered other).log = true := hleaving
        rw [log_cancelRegistered] at hleaving
        cases List.mem_cons.mp (hput path hp hleaving) with
        | inl heq => cases heq
        | inr hmem => exact hmem
  | cancel other =>
      have hmem : Action.cancel other ∈ c.body := hsuffix.subset List.mem_cons_self
      refine ⟨registered_cancelRegistered hi.registered other, hrest, ?_, fun path hp hwaits => ?_,
        fun path hp hleaving => ?_⟩
      · show ∀ path, c.touches path = true → owed path (h.cancelRegistered other).log = false
        rw [log_cancelRegistered]
        exact htaken
      · cases hwaits with
        | inl howed =>
            have howed : owed path (h.cancelRegistered other).log = true := howed
            rw [log_cancelRegistered] at howed
            refine liveAt_cancelRegistered hi.registered (fun hpath => ?_) (hi.live path hp howed)
            rw [← hpath, htaken other (Callback.touches_of_cancel hmem)] at howed
            cases howed
        | inr hover => cases hlast path hp hover.1 hover.2
      · have hleaving : leaving path (h.cancelRegistered other).log = true := hleaving
        rw [log_cancelRegistered] at hleaving
        cases List.mem_cons.mp (hput path hp hleaving) with
        | inl heq => cases heq
        | inr hmem => exact hmem
  | put item =>
      refine ⟨hi.registered, hrest, fun path ht => ?_, fun path hp hwaits => ?_, fun path hp hleaving => ?_⟩
      · show owed path (h.log ++ [.put item]) = false
        rw [owed_put, htaken path ht, Bool.false_and]
      · cases hwaits with
        | inl howed =>
            have howed : owed path (h.log ++ [.put item]) = true := howed
            rw [owed_put, Bool.and_eq_true] at howed
            exact hi.live path hp howed.1
        | inr hover => cases hlast path hp hover.1 hover.2
      · have hleaving : leaving path (h.log ++ [.put item]) = true := hleaving
        rw [leaving_put, Bool.and_eq_true] at hleaving
        cases List.mem_cons.mp (hput path hp hleaving.1) with
        | inl heq =>
            cases heq
            simp at hleaving
        | inr hmem => exact hmem

/-- A timer moves on: the registrations stay right. -/
theorem registered_enter (hreg : ∀ path i, h.registered.lookup path = some i → ∃ t, h.timers[i]? = some t ∧ t.path = path)
    (j : ℕ) (phase : Phase) {path : PyStr} {i : ℕ} (hl : h.registered.lookup path = some i) :
    ∃ t, (h.enter j phase).timers[i]? = some t ∧ t.path = path := by
  obtain ⟨t, ht, hpath⟩ := hreg path i hl
  obtain ⟨t', ht', hpath'⟩ := path_of_modify (f := fun t => { t with phase := phase }) (fun _ => rfl) ht j
  exact ⟨t', ht', hpath'.trans hpath⟩

/-- **One move keeps the invariant.** -/
theorem Inv.step (hi : Inv h) {m : Move} (hstep : step h m = some h') : Inv h' := by
  cases m with
  | begin c =>
      rw [Debounce.step] at hstep
      split at hstep
      · rename_i hcur
        cases hstep
        exact (hi.began hcur c).goOn
      · cases hstep
  | act =>
      rw [Debounce.step] at hstep
      split at hstep
      · rename_i c a rest hcur
        cases hstep
        exact (hi.performed hcur).goOn
      · cases hstep
  | start i =>
      rw [Debounce.step] at hstep
      split at hstep
      · rename_i path ht
        cases hstep
        refine ⟨fun _ _ hl => registered_enter hi.registered i .started hl, hi.current, fun other hp howed => ?_, hi.put⟩
        exact liveAt_modify (fun _ => rfl) (fun _ _ _ => Or.inr (Or.inl rfl)) ht (hi.live other hp howed)
      · cases hstep
  | remove i =>
      rw [Debounce.step] at hstep
      split at hstep
      · rename_i path ht
        cases hstep
        refine ⟨fun other j hl => ?_, hi.current, fun other hp howed => ?_, hi.put⟩
        · have hne : other ≠ path := by
            rintro rfl
            rw [AList.lookup_erase] at hl
            cases hl
          rw [AList.lookup_erase_ne hne] at hl
          exact registered_enter hi.registered i .removed hl
        · exact liveAt_modify (fun _ => rfl) (fun _ _ _ => Or.inr (Or.inr rfl)) ht (hi.live other hp howed)
      · cases hstep
  | put i =>
      rw [Debounce.step] at hstep
      split at hstep
      · rename_i path ht
        cases hstep
        refine ⟨fun _ _ hl => registered_enter hi.registered i .done hl, fun c rest hcur => ?_, fun other hp howed => ?_,
          fun other hp hleaving => ?_⟩
        · obtain ⟨hne, hsuffix, htaken⟩ := hi.current c rest hcur
          exact ⟨hne, hsuffix, fun other htouches => by rw [owed_put, htaken other htouches, Bool.false_and]⟩
        · have howed : owed other (h.log ++ [.put (.catalog path)]) = true := howed
          rw [owed_put, Bool.and_eq_true] at howed
          refine liveAt_modify (fun _ => rfl) (fun _ hpath _ => ?_) ht (hi.live other hp howed.1)
          rw [show path = other from hpath] at howed
          simp at howed
        · have hleaving : leaving other (h.log ++ [.put (.catalog path)]) = true := hleaving
          rw [leaving_put, Bool.and_eq_true] at hleaving
          exact hi.put other hp hleaving.1
      · cases hstep

theorem inv_idle : Inv Handler.idle where
  registered _ _ hl := by cases hl
  current _ _ hcur := by cases hcur
  live _ _ howed := by cases howed
  put _ _ hleaving := by cases hleaving

/-- **Every interleaving keeps the invariant.** -/
theorem Watched.inv (hw : Watched h) : Inv h := by
  induction hw with
  | refl => exact inv_idle
  | tail _ hstep ih =>
      obtain ⟨m, hm⟩ := hstep
      exact ih.step hm

end Steps

/-- **No update is lost.**  When no timer is running and no callback is in progress, the last callback of a catalogable path,
if a file was created, modified or moved in there, has had a catalog event put after it; and each callback that deleted a
file there or moved one out has had a delete event put since it began. -/
theorem no_lost_update {h : Handler} (hw : Watched h) (hrest : h.AtRest) {path : PyStr} (hp : isCatalogable path = true)
    {c : Callback} {before after : List Entry} :
    (h.log = before ++ .ended c :: after → c.arrives path = true → (∀ c', .began c' ∈ after → c'.touches path = false) →
        .put (.catalog path) ∈ after) ∧
      (h.log = before ++ .began c :: after → c.leaves path = true → .put (.delete path) ∈ after) := by
  have hi := hw.inv
  constructor
  · intro hlog harrives hlast
    have hdown : owed path h.log = false := by
      cases howed : owed path h.log with
      | false => rfl
      | true =>
          obtain ⟨t, ht, _, hlive⟩ := hi.live path hp howed
          exact absurd hlive (hrest.1 t ht)
    rw [hlog] at hdown
    obtain ⟨e, he, hlowers⟩ := lowered_of_flag (e := .ended c) harrives before after hdown
    cases e with
    | began c' =>
        have htouches : c'.touches path = true := hlowers
        rw [hlast c' he] at htouches
        cases htouches
    | ended c' => cases hlowers
    | put item =>
        rw [← of_decide_eq_true hlowers]
        exact he
  · intro hlog hleaves
    have hdown : leaving path h.log = false := by
      cases hleaving : leaving path h.log with
      | false => rfl
      | true =>
          obtain ⟨c', rest, hcur, _⟩ := hi.put path hp hleaving
          rw [hrest.2] at hcur
          cases hcur
    rw [hlog] at hdown
    obtain ⟨e, he, hlowers⟩ := lowered_of_flag (e := .began c) hleaves before after hdown
    cases e with
    | began c' => cases hlowers
    | ended c' => cases hlowers
    | put item =>
        rw [← of_decide_eq_true hlowers]
        exact he

/-! ### A cancel that comes too late -/

/-- A file is written to. -/
def writes : Callback := .modified ⟨false, py "/w/a.mcap", []⟩

/-- The first timer has started when the second one takes its place; then it removes the registration of the second. -/
def racing : List Move :=
  [.begin writes, .act, .start 0, .begin writes, .act, .remove 0, .put 0, .start 1, .remove 1, .put 1]

/-- The handler after a list of moves. -/
def afterMoves (moves : List Move) : Option Handler := moves.foldlM step Handler.idle

theorem watched_of_moves : ∀ (moves : List Move) (h h' : Handler), Watched h → moves.foldlM step h = some h' → Watched h'
  | [], h, h', hw, hmoves => by
      cases hmoves
      exact hw
  | m :: moves, h, h', hw, hmoves => by
      rw [List.foldlM_cons] at hmoves
      obtain ⟨h₁, hstep, hrest⟩ := Option.bind_eq_some_iff.mp hmoves
      exact watched_of_moves moves h₁ h' (hw.tail ⟨m, hstep⟩) hrest

/-- Where the race ends: both timers have put their events, and nothing is registered. -/
def raced : Handler where
  timers := [⟨py "/w/a.mcap", .done⟩, ⟨py "/w/a.mcap", .done⟩]
  registered := ∅
  current := none
  log := [.began writes, .ended writes, .began writes, .ended writes, .put (.catalog (py "/w/a.mcap")),
    .put (.catalog (py "/w/a.mcap"))]

theorem afterMoves_racing : afterMoves racing = some raced := by rfl

/-- Both callbacks are over when the first event is put. -/
theorem no_lost_update_raced : raced.AtRest ∧ ∃ before after : List Entry, raced.log = before ++ Entry.ended writes :: after ∧
    (∀ c, Entry.began c ∈ after → c.touches (py "/w/a.mcap") = false) ∧ Entry.put (.catalog (py "/w/a.mcap")) ∈ after := by
  have hw : Watched raced := watched_of_moves racing Handler.idle raced ReflTransGen.refl afterMoves_racing
  have hrest : raced.AtRest := ⟨by decide, rfl⟩
  have hp : isCatalogable (py "/w/a.mcap") = true := by decide
  have hlog : raced.log = [Entry.began writes, Entry.ended writes, Entry.began writes] ++
      Entry.ended writes :: [Entry.put (.catalog (py "/w/a.mcap")), Entry.put (.catalog (py "/w/a.mcap"))] := rfl
  have hlast : ∀ c, Entry.began c ∈ [Entry.put (.catalog (py "/w/a.mcap")), Entry.put (.catalog (py "/w/a.mcap"))] →
      c.touches (py "/w/a.mcap") = false := fun c hc => by simp at hc
  exact ⟨hrest, _, _, hlog, hlast, (no_lost_update hw hrest hp).1 hlog (by decide) hlast⟩

/-! ### The handler without threads -/

/-- What an action does to the handler whose timers run out at once. -/
def atOnce (g : EventHandler) : Action → EventHandler
  | .schedule path => g.scheduleCatalog path
  | .cancel path => g.cancel path
  | .put item => { g with queue := g.queue ++ [item] }

/-- What a callback does to it. -/
def Callback.handle (g : EventHandler) : Callback → EventHandler
  | .created event => g.onCreated event
  | .modified event => g.onModified event
  | .deleted event => g.onDeleted event
  | .moved event => g.onMoved event

theorem Callback.handle_eq (c : Callback) (g : EventHandler) : c.handle g = c.body.foldl atOnce g := by
  cases c with
  | created event =>
      rw [Callback.handle, Callback.body, EventHandler.onCreated]
      split <;> rfl
  | modified event =>
      rw [Callback.handle, Callback.body, EventHandler.onModified]
      split <;> rfl
  | deleted event =>
      rw [Callback.handle, Callback.body, EventHandler.onDeleted]
      split <;> rfl
  | moved event =>
      rw [Callback.handle, Callback.body, EventHandler.onMoved]
      split
      · rfl
      · rw [List.foldl_append]
        dsimp only
        split <;> split <;> rfl

/-- The events put. -/
def puts (log : List Entry) : List WorkItem := log.filterMap fun | .put item => some item | _ => none

/-- The handler without threads shows what is registered and what was put. -/
structure Shows (h : Handler) (g : EventHandler) : Prop where
  timers : ∀ path, path ∈ g.timers ↔ (h.registered.lookup path).isSome = true
  waiting : ∀ path i, h.registered.lookup path = some i → h.timers[i]? = some ⟨path, .waiting⟩
  queue : g.queue = puts h.log

/-- Some threads have moved. -/
abbrev Moves : Handler → Handler → Prop := ReflTransGen fun h h' => ∃ m, step h m = some h'

section Shown

variable {h : Handler} {g : EventHandler}

theorem mem_timers_cancel {path other : PyStr} :
    other ∈ (g.cancel path).timers ↔ other ∈ g.timers ∧ other ≠ path := by
  simp only [EventHandler.cancel, List.mem_filter, decide_eq_true_eq]

/-- A registration goes, and nothing changes about the other timers. -/
theorem Shows.erased (hs : Shows h g) {path : PyStr} {i : ℕ} (hi : h.registered.lookup path = some i) {timers : List Timer}
    (hsame : ∀ j, i ≠ j → timers[j]? = h.timers[j]?) :
    Shows { h with timers := timers, registered := h.registered.erase path } (g.cancel path) := by
  refine ⟨fun other => ?_, fun other j hj => ?_, hs.queue⟩
  · rw [mem_timers_cancel, hs.timers other]
    by_cases heq : other = path
    · rw [heq, AList.lookup_erase]
      simp
    · rw [AList.lookup_erase_ne heq]
      exact and_iff_left heq
  · have hne : other ≠ path := by
      rintro rfl
      rw [AList.lookup_erase] at hj
      cases hj
    rw [AList.lookup_erase_ne hne] at hj
    have hother := hs.waiting other j hj
    have hij : i ≠ j := by
      rintro rfl
      rw [hs.waiting path i hi] at hother
      exact hne (congrArg Timer.path (Option.some.inj hother)).symm
    exact (hsame j hij).trans hother

theorem Shows.cancelRegistered (hs : Shows h g) (path : PyStr) : Shows (h.cancelRegistered path) (g.cancel path) := by
  rw [Handler.cancelRegistered]
  split
  · rename_i hnone
    refine ⟨fun other => ?_, hs.waiting, hs.queue⟩
    rw [mem_timers_cancel, hs.timers other]
    refine ⟨And.left, fun hsome => ⟨hsome, fun heq => ?_⟩⟩
    rw [heq, hnone] at hsome
    cases hsome
  · rename_i i hi
    exact hs.erased hi fun j hij => by simp [hij]

theorem Shows.perform (hs : Shows h g) (a : Action) : Shows (h.perform a) (atOnce g a) := by
  cases a with
  | cancel path => exact hs.cancelRegistered path
  | put item =>
      refine ⟨hs.timers, hs.waiting, ?_⟩
      show g.queue ++ [item] = puts (h.log ++ [.put item])
      rw [puts, List.filterMap_append, hs.queue]
      rfl
  | schedule path =>
      have hc := hs.cancelRegistered path
      refine ⟨fun other => ?_, fun other j hj => ?_, hc.queue⟩
      · show other ∈ path :: (g.cancel path).timers ↔
          (((h.cancelRegistered path).registered.insert path (h.cancelRegistered path).timers.length).lookup other).isSome = true
        by_cases heq : other = path
        · rw [heq, AList.lookup_insert]
          exact iff_of_true List.mem_cons_self rfl
        · rw [AList.lookup_insert_ne heq, ← hc.timers other, List.mem_cons, or_iff_right heq]
      · show ((h.cancelRegistered path).timers ++ [⟨path, .waiting⟩])[j]? = _
        have hj : ((h.cancelRegistered path).registered.insert path (h.cancelRegistered path).timers.length).lookup other =
            some j := hj
        by_cases heq : other = path
        · rw [heq, AList.lookup_insert] at hj
          rw [← Option.some.inj hj, List.getElem?_concat_length, heq]
        · rw [AList.lookup_insert_ne heq] at hj
          have hother := hc.waiting other j hj
          rw [List.getElem?_append_left (List.getElem?_eq_some_iff.mp hother).1]
          exact hother

/-- The rest of a callback, its actions in a row. -/
theorem Shows.goOn (c : Callback) : ∀ (rest : List Action) {h : Handler} {g : EventHandler}, Shows h g →
    ∃ h', Moves (h.goOn c rest) h' ∧ h'.current = none ∧ Shows h' (rest.foldl atOnce g)
  | [], h, g, hs => by
      refine ⟨_, ReflTransGen.refl, rfl, hs.timers, hs.waiting, ?_⟩
      show g.queue = puts (h.log ++ [.ended c])
      rw [puts, List.filterMap_append, hs.queue]
      simp [puts]
  | a :: rest, h, g, hs => by
      have hshown : Shows { h with current := some (c, a :: rest) } g := ⟨hs.timers, hs.waiting, hs.queue⟩
      obtain ⟨h', hmoves, hover, hs'⟩ := Shows.goOn c rest (hshown.perform a)
      exact ⟨h', ReflTransGen.head ⟨.act, rfl⟩ hmoves, hover, hs'⟩

/-- **The handler without threads is one of the interleavings**: each of its steps is a run of moves. -/
theorem Shows.handlerStep (hs : Shows h g) (hover : h.current = none) {g' : EventHandler} (hstep : HandlerStep g g') :
    ∃ h', Moves h h' ∧ h'.current = none ∧ Shows h' g' := by
  have hcallback : ∀ c : Callback, ∃ h', Moves h h' ∧ h'.current = none ∧ Shows h' (c.handle g) := by
    intro c
    have hbegan : Shows { h with log := h.log ++ [.began c] } g := by
      refine ⟨hs.timers, hs.waiting, ?_⟩
      show g.queue = puts (h.log ++ [.began c])
      rw [puts, List.filterMap_append, hs.queue]
      simp [puts]
    obtain ⟨h', hmoves, hover', hs'⟩ := Shows.goOn c c.body hbegan
    have hfirst : step h (.begin c) = some (Handler.goOn { h with log := h.log ++ [.began c] } c c.body) := by
      rw [step, hover]
    rw [Callback.handle_eq]
    exact ⟨h', ReflTransGen.head ⟨.begin c, hfirst⟩ hmoves, hover', hs'⟩
  cases hstep with
  | created event => exact hcallback (.created event)
  | modified event => exact hcallback (.modified event)
  | deleted event => exact hcallback (.deleted event)
  | moved event => exact hcallback (.moved event)
  | fire path hmem =>
      obtain ⟨i, hi⟩ := Option.isSome_iff_exists.mp ((hs.timers path).mp hmem)
      have hwaiting := hs.waiting path i hi
      have hlt : i < h.timers.length := (List.getElem?_eq_some_iff.mp hwaiting).1
      have hstart : step h (.start i) = some (h.enter i .started) := by rw [step, hwaiting]
      have hstarted : (h.enter i .started).timers[i]? = some ⟨path, .started⟩ := by
        show (h.timers.modify i _)[i]? = _
        rw [List.getElem?_modify, hwaiting]
        simp
      have hremove : step (h.enter i .started) (.remove i) =
          some { (h.enter i .started).enter i .removed with registered := h.registered.erase path } := by
        rw [step, hstarted]
        rfl
      have hremoved : ((h.enter i .started).enter i .removed).timers[i]? = some ⟨path, .removed⟩ := by
        show ((h.enter i .started).timers.modify i _)[i]? = _
        rw [List.getElem?_modify, hstarted]
        simp
      have hput : step { (h.enter i .started).enter i .removed with registered := h.registered.erase path } (.put i) =
          some { ((h.enter i .started).enter i .removed).enter i .done with
            registered := h.registered.erase path, log := h.log ++ [.put (.catalog path)] } := by
        rw [step]
        show (match ((h.enter i .started).enter i .removed).timers[i]? with
          | some ⟨path, .removed⟩ => _
          | _ => none) = _
        rw [hremoved]
        rfl
      refine ⟨_, ((ReflTransGen.single ⟨.start i, hstart⟩).tail ⟨.remove i, hremove⟩).tail ⟨.put i, hput⟩, hover, ?_⟩
      have hsame : ∀ j, i ≠ j → (((h.enter i .started).enter i .removed).enter i .done).timers[j]? = h.timers[j]? := by
        intro j hij
        simp [Handler.enter, hij]
      obtain ⟨htimers, hwaits, hqueue⟩ := hs.erased hi hsame
      refine ⟨htimers, hwaits, ?_⟩
      show g.queue ++ [.catalog path] = puts (h.log ++ [.put (.catalog path)])
      rw [puts, List.filterMap_append, hs.queue]
      rfl

end Shown

end McapCatalog.Debounce
