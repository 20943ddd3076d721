import Mathlib.Data.Nat.Notation
import Mathlib.Logic.Function.Basic

/-!
# Readers around a rename

The last steps of `build_and_publish` beside readers that open the served path at any moment.  The sidecars of a database are
found by their path, so what a removal hits depends on who has opened what since the rename.

* `Task`, `program` — what the publisher still has to do: the gate, the removals, each a look and an unlink, and the rename;
* `Scene`, `Event`, `step` — the inodes at the path, the readers with what they have attached, and the moves;
* `Harmless` — an unlink of no file that a reader has attached beside the new main file;
* `harmless_of_clear` — **every unlink is harmless in a run in which nobody attaches a sidecar beside the new main file before
  its removal, and the readers of the new database share its sidecars**;
* `openedInWindow_harmed` — a reader that does.
-/

namespace McapCatalog.SidecarWindow

/-- The `-wal` and the `-shm`. -/
inductive Sidecar where
  | wal
  | shm
  deriving DecidableEq

/-- A step that the publisher still has to make; `_remove_if_exists` looks first and then unlinks. -/
inductive Task where
  | gate
  | look (sidecar : Sidecar)
  | unlink (sidecar : Sidecar)
  | replace
  deriving DecidableEq

/-- What the publisher finds at the served path: a database that its gate verifies, one that its gate takes for garbage, or
nothing. -/
inductive Found where
  | verified
  | garbage
  | absent
  deriving DecidableEq

/-- `_remove_if_exists` of both sidecars. -/
def removals : List Task := [.look .wal, .look .shm]

/-- `build_and_publish` from `served_exists` on. -/
def program : Found → List Task
  | .verified => .gate :: .replace :: removals
  | .garbage => .gate :: (removals ++ .replace :: removals)
  | .absent => removals ++ .replace :: removals

/-- A reader: the main file it has opened, and the sidecars it has attached. -/
structure Reader where
  main : ℕ
  attached : Sidecar → Option ℕ

/-- The reader with one more sidecar. -/
def Reader.attach (r : Reader) (sidecar : Sidecar) (i : ℕ) : Reader :=
  { r with attached := Function.update r.attached sidecar (some i) }

theorem Reader.attached_attach_self (r : Reader) (sidecar : Sidecar) (i : ℕ) :
    (r.attach sidecar i).attached sidecar = some i := Function.update_self _ _ _

theorem Reader.attached_attach_of_ne (r : Reader) {sidecar other : Sidecar} (i : ℕ) (h : other ≠ sidecar) :
    (r.attach sidecar i).attached other = r.attached other := Function.update_of_ne h _ _

/-- The files at the served path, by their inodes, and everybody who uses them; `built` is the inode of the temporary
database, and no file has one from `fresh` on. -/
structure Scene where
  main : Option ℕ
  sidecar : Sidecar → Option ℕ
  built : ℕ
  fresh : ℕ
  readers : ℕ → Option Reader
  todo : List Task

/-- What the connection of the gate does to the sidecars: nothing, it makes those that are missing, or it also removes them
when it closes as the last one. -/
inductive GateEffect where
  | kept
  | made
  | removed
  deriving DecidableEq

/-- A move: the publisher's next task, or its end by an exception or a crash; a reader that opens the path, attaches a sidecar,
or closes. -/
inductive Event where
  | publish (effect : GateEffect)
  | giveUp
  | openMain (reader : ℕ)
  | attach (reader : ℕ) (sidecar : Sidecar)
  | close (reader : ℕ)
  deriving DecidableEq

namespace Scene

/-- The inode of the sidecar at the path, which is made if it is missing. -/
def inodeOf (s : Scene) (sidecar : Sidecar) : ℕ := (s.sidecar sidecar).getD s.fresh

/-- The scene with that sidecar at the path. -/
def making (s : Scene) (sidecar : Sidecar) : Scene :=
  { s with sidecar := Function.update s.sidecar sidecar (some (s.inodeOf sidecar)), fresh := s.fresh + 1 }

/-- A reader changed, or gone. -/
def setReader (s : Scene) (reader : ℕ) (r : Option Reader) : Scene :=
  { s with readers := Function.update s.readers reader r }

theorem readers_setReader_self (s : Scene) (reader : ℕ) (r : Option Reader) : (s.setReader reader r).readers reader = r :=
  Function.update_self _ _ _

theorem readers_setReader_of_ne (s : Scene) {reader reader' : ℕ} (r : Option Reader) (h : reader' ≠ reader) :
    (s.setReader reader r).readers reader' = s.readers reader' := Function.update_of_ne h _ _

/-- A sidecar is made only where there was none. -/
theorem sidecar_making {s : Scene} {sidecar other : Sidecar} {i : ℕ} (h : s.sidecar other = some i) :
    (s.making sidecar).sidecar other = some i := by
  by_cases hsame : other = sidecar
  · rw [← hsame]
    refine (Function.update_self _ _ _).trans ?_
    rw [inodeOf, h]
    rfl
  · exact (Function.update_of_ne hsame _ _).trans h

theorem sidecar_making_self (s : Scene) (sidecar : Sidecar) : (s.making sidecar).sidecar sidecar = some (s.inodeOf sidecar) :=
  Function.update_self _ _ _

/-- The scene after the gate. -/
def gated (s : Scene) : GateEffect → Scene
  | .kept => s
  | .made => (s.making .wal).making .shm
  | .removed => { s with sidecar := fun _ => none }

end Scene

/-- The publisher's next task; to unlink a file that is gone raises. -/
def publishStep (s : Scene) (effect : GateEffect) : Option Scene :=
  match s.todo with
  | [] => none
  | .gate :: todo => some { s.gated effect with todo := todo }
  | .look sidecar :: todo => some { s with todo := if (s.sidecar sidecar).isSome then .unlink sidecar :: todo else todo }
  | .unlink sidecar :: todo =>
    some { s with
      sidecar := Function.update s.sidecar sidecar none
      todo := if (s.sidecar sidecar).isSome then todo else [] }
  | .replace :: todo => some { s with main := some s.built, todo := todo }

/-- One move, if it can be made. -/
def step (s : Scene) : Event → Option Scene
  | .publish effect => publishStep s effect
  | .giveUp => some { s with todo := [] }
  | .openMain reader =>
    match s.readers reader, s.main with
    | none, some main => some (s.setReader reader (some ⟨main, fun _ => none⟩))
    | _, _ => none
  | .attach reader sidecar =>
    match s.readers reader with
    | none => none
    | some r =>
      if r.attached sidecar = none then
        some ((s.making sidecar).setReader reader (some (r.attach sidecar (s.inodeOf sidecar))))
      else none
  | .close reader => some (s.setReader reader none)

/-- The scene when the publisher comes to the served path: its temporary database is none of the files in use. -/
structure Starts (found : Found) (s : Scene) : Prop where
  todo : s.todo = program found
  absent : found = .absent ↔ s.main = none
  main : s.main ≠ some s.built
  readers : ∀ reader r, s.readers reader = some r → r.main ≠ s.built

/-- A run: the moves with the scenes they were made in, and the scene it has led to. -/
inductive Run (found : Found) : List (Scene × Event) → Scene → Prop where
  | start {s : Scene} (h : Starts found s) : Run found [] s
  | step {moves : List (Scene × Event)} {s s' : Scene} (run : Run found moves s) (e : Event) (h : step s e = some s') :
      Run found (moves ++ [(s, e)]) s'

/-- If the move is an unlink, it does not hit a file that a reader has attached beside the new main file. -/
def Harmless (s : Scene) (e : Event) : Prop :=
  ∀ effect sidecar todo, e = .publish effect → s.todo = .unlink sidecar :: todo →
    ∀ reader r i, s.readers reader = some r → r.main = s.built → r.attached sidecar = some i → s.sidecar sidecar ≠ some i

/-- Every reader of the new database has the sidecars at the path, and so all have the same. -/
def Shared (s : Scene) : Prop :=
  ∀ reader r sidecar i, s.readers reader = some r → r.main = s.built → r.attached sidecar = some i →
    s.sidecar sidecar = some i

/-- The publisher still has to look at the sidecar, or to unlink it. -/
def Pending (s : Scene) (sidecar : Sidecar) : Prop := .look sidecar ∈ s.todo ∨ .unlink sidecar ∈ s.todo

/-- No reader of the new main file attaches a sidecar that the publisher still has to remove. -/
def Clear (s : Scene) (e : Event) : Prop :=
  ∀ reader sidecar r, e = .attach reader sidecar → s.readers reader = some r → r.main = s.built → ¬Pending s sidecar

/-! ### What the moves keep -/

/-- The gate comes first, and before it nobody can have the new main file; what is attached beside that is not to be removed
any more, and is at the path. -/
structure Settled (s : Scene) : Prop where
  gateOnce : .gate ∉ s.todo.tail
  early : .gate ∈ s.todo → s.main ≠ some s.built ∧ ∀ reader r, s.readers reader = some r → r.main ≠ s.built
  spared : ∀ reader r sidecar i, s.readers reader = some r → r.main = s.built → r.attached sidecar = some i →
    ¬Pending s sidecar
  shared : Shared s

theorem gate_not_mem_tail_program (found : Found) : .gate ∉ (program found).tail := by
  cases found <;> decide

section Moves

variable {s s' : Scene} {found : Found}

theorem Settled.harmless (h : Settled s) (e : Event) : Harmless s e := by
  intro _ sidecar todo _ htodo reader r i hreader hmain hattached
  have hunlink : .unlink sidecar ∈ s.todo := by
    rw [htodo]
    exact List.mem_cons_self
  exact absurd (Or.inr hunlink) (h.spared reader r sidecar i hreader hmain hattached)

theorem Starts.settled (h : Starts found s) : Settled s where
  gateOnce := h.todo ▸ gate_not_mem_tail_program found
  early _ := ⟨h.main, h.readers⟩
  spared reader r _ _ hreader hmain := absurd hmain (h.readers reader r hreader)
  shared reader r _ _ hreader hmain := absurd hmain (h.readers reader r hreader)

/-- A task after the gate, when all that the publisher still has to remove it had to remove before. -/
theorem Settled.of_pending (h : Settled s) (htail : .gate ∉ s'.todo) (hpending : ∀ sidecar, Pending s' sidecar → Pending s sidecar)
    (hreaders : s'.readers = s.readers) (hbuilt : s'.built = s.built)
    (hsidecar : ∀ sidecar i, ¬Pending s sidecar → s.sidecar sidecar = some i → s'.sidecar sidecar = some i) : Settled s' where
  gateOnce hgate := htail (List.mem_of_mem_tail hgate)
  early hgate := absurd hgate htail
  spared reader r sidecar i hreader hmain hattached hpend := by
    rw [hreaders] at hreader
    rw [hbuilt] at hmain
    exact h.spared reader r sidecar i hreader hmain hattached (hpending sidecar hpend)
  shared reader r sidecar i hreader hmain hattached := by
    rw [hreaders] at hreader
    rw [hbuilt] at hmain
    exact hsidecar sidecar i (h.spared reader r sidecar i hreader hmain hattached)
      (h.shared reader r sidecar i hreader hmain hattached)

theorem Settled.publishStep {effect : GateEffect} (h : Settled s) (hstep : publishStep s effect = some s') : Settled s' := by
  rw [SidecarWindow.publishStep] at hstep
  cases htodo : s.todo with
  | nil => rw [htodo] at hstep; cases hstep
  | cons task todo =>
      have hgate : .gate ∉ todo := by
        have hgateOnce := h.gateOnce
        rwa [htodo] at hgateOnce
      have hlater : ∀ {sidecar}, .look sidecar ∈ todo ∨ .unlink sidecar ∈ todo → Pending s sidecar := by
        intro sidecar hpend
        rw [Pending, htodo]
        exact hpend.imp (List.mem_cons_of_mem _) (List.mem_cons_of_mem _)
      rw [htodo] at hstep
      cases task with
      | gate =>
          cases hstep
          have hfirst : .gate ∈ s.todo := by
            rw [htodo]
            exact List.mem_cons_self
          have hnone : ∀ reader r, (s.gated effect).readers reader = some r → r.main ≠ (s.gated effect).built := by
            cases effect <;> exact (h.early hfirst).2
          exact ⟨fun htail => hgate (List.mem_of_mem_tail htail), fun htail => absurd htail hgate,
            fun reader r _ _ hreader hmain => absurd hmain (hnone reader r hreader),
            fun reader r _ _ hreader hmain => absurd hmain (hnone reader r hreader)⟩
      | look sidecar =>
          cases hstep
          have hpending : ∀ other, Pending { s with
              todo := if (s.sidecar sidecar).isSome then .unlink sidecar :: todo else todo } other → Pending s other := by
            intro other hpend
            rw [Pending] at hpend
            dsimp only at hpend
            split at hpend
            · simp only [List.mem_cons, reduceCtorEq, false_or, Task.unlink.injEq] at hpend
              rcases hpend with hlook | rfl | hunlink
              · exact hlater (Or.inl hlook)
              · rw [Pending, htodo]
                exact Or.inl List.mem_cons_self
              · exact hlater (Or.inr hunlink)
            · exact hlater hpend
          refine h.of_pending ?_ hpending rfl rfl fun _ _ _ hi => hi
          dsimp only
          split
          · simpa only [List.mem_cons, reduceCtorEq, false_or] using hgate
          · exact hgate
      | unlink sidecar =>
          cases hstep
          have hpending : ∀ other, Pending { s with
              sidecar := Function.update s.sidecar sidecar none
              todo := if (s.sidecar sidecar).isSome then todo else [] } other → Pending s other := by
            intro other hpend
            rw [Pending] at hpend
            dsimp only at hpend
            split at hpend
            · exact hlater hpend
            · simp only [List.not_mem_nil, or_false] at hpend
          refine h.of_pending ?_ hpending rfl rfl fun other i hspared hi => ?_
          · dsimp only
            split
            · exact hgate
            · exact List.not_mem_nil
          · have hother : other ≠ sidecar := by
              rintro rfl
              apply hspared
              rw [Pending, htodo]
              exact Or.inr List.mem_cons_self
            exact (Function.update_of_ne hother _ _).trans hi
      | replace =>
          cases hstep
          exact h.of_pending hgate (fun _ => hlater) rfl rfl fun _ _ _ hi => hi

theorem Settled.openMain {reader : ℕ} (h : Settled s) (hstep : step s (.openMain reader) = some s') : Settled s' := by
  rw [SidecarWindow.step] at hstep
  split at hstep
  · rename_i main _ hmain
    cases hstep
    refine ⟨h.gateOnce, fun hgate => ⟨(h.early hgate).1, fun reader' r hreader hbuilt => ?_⟩,
      fun reader' r sidecar i hreader hbuilt hattached => ?_, fun reader' r sidecar i hreader hbuilt hattached => ?_⟩
    · by_cases hsame : reader' = reader
      · rw [hsame, Scene.readers_setReader_self] at hreader
        cases hreader
        exact (h.early hgate).1 (hmain.trans (congrArg some hbuilt))
      · rw [Scene.readers_setReader_of_ne _ _ hsame] at hreader
        exact (h.early hgate).2 reader' r hreader hbuilt
    · by_cases hsame : reader' = reader
      · rw [hsame, Scene.readers_setReader_self] at hreader
        cases hreader
        cases hattached
      · rw [Scene.readers_setReader_of_ne _ _ hsame] at hreader
        exact h.spared reader' r sidecar i hreader hbuilt hattached
    · by_cases hsame : reader' = reader
      · rw [hsame, Scene.readers_setReader_self] at hreader
        cases hreader
        cases hattached
      · rw [Scene.readers_setReader_of_ne _ _ hsame] at hreader
        exact h.shared reader' r sidecar i hreader hbuilt hattached
  · cases hstep

theorem Settled.attach {reader : ℕ} {sidecar : Sidecar} (h : Settled s) (hclear : Clear s (.attach reader sidecar))
    (hstep : step s (.attach reader sidecar) = some s') : Settled s' := by
  rw [SidecarWindow.step] at hstep
  split at hstep
  · cases hstep
  · rename_i r hreader
    split at hstep
    · cases hstep
      refine ⟨h.gateOnce, fun hgate => ⟨(h.early hgate).1, fun reader' r' hreader' hbuilt => ?_⟩,
        fun reader' r' other i hreader' hbuilt hattached => ?_, fun reader' r' other i hreader' hbuilt hattached => ?_⟩
      · by_cases hsame : reader' = reader
        · rw [hsame, Scene.readers_setReader_self] at hreader'
          cases hreader'
          exact (h.early hgate).2 reader r hreader hbuilt
        · rw [Scene.readers_setReader_of_ne _ _ hsame] at hreader'
          exact (h.early hgate).2 reader' r' hreader' hbuilt
      · by_cases hsame : reader' = reader
        · rw [hsame, Scene.readers_setReader_self] at hreader'
          cases hreader'
          by_cases hother : other = sidecar
          · rw [hother]
            exact hclear reader sidecar r rfl hreader hbuilt
          · rw [Reader.attached_attach_of_ne _ _ hother] at hattached
            exact h.spared reader r other i hreader hbuilt hattached
        · rw [Scene.readers_setReader_of_ne _ _ hsame] at hreader'
          exact h.spared reader' r' other i hreader' hbuilt hattached
      · by_cases hsame : reader' = reader
        · rw [hsame, Scene.readers_setReader_self] at hreader'
          cases hreader'
          by_cases hother : other = sidecar
          · rw [hother] at hattached ⊢
            rw [Reader.attached_attach_self] at hattached
            exact (s.sidecar_making_self sidecar).trans hattached
          · rw [Reader.attached_attach_of_ne _ _ hother] at hattached
            exact Scene.sidecar_making (h.shared reader r other i hreader hbuilt hattached)
        · rw [Scene.readers_setReader_of_ne _ _ hsame] at hreader'
          exact Scene.sidecar_making (h.shared reader' r' other i hreader' hbuilt hattached)
    · cases hstep

theorem Settled.close {reader : ℕ} (h : Settled s) (hstep : step s (.close reader) = some s') : Settled s' := by
  cases hstep
  have hother : ∀ {reader' r}, (s.setReader reader none).readers reader' = some r → s.readers reader' = some r := by
    intro reader' r hreader
    by_cases hsame : reader' = reader
    · rw [hsame, Scene.readers_setReader_self] at hreader
      cases hreader
    · rwa [Scene.readers_setReader_of_ne _ _ hsame] at hreader
  exact ⟨h.gateOnce, fun hgate => ⟨(h.early hgate).1, fun reader' r hreader => (h.early hgate).2 reader' r (hother hreader)⟩,
    fun reader' r sidecar i hreader => h.spared reader' r sidecar i (hother hreader),
    fun reader' r sidecar i hreader => h.shared reader' r sidecar i (hother hreader)⟩

/-- **One move.** -/
theorem Settled.step {e : Event} (h : Settled s) (hclear : Clear s e) (hstep : step s e = some s') : Settled s' := by
  cases e with
  | publish effect => exact h.publishStep hstep
  | giveUp =>
      cases hstep
      refine ⟨List.not_mem_nil, fun hgate => absurd hgate List.not_mem_nil, fun _ _ _ _ _ _ _ hpend => ?_, h.shared⟩
      exact hpend.elim List.not_mem_nil List.not_mem_nil
  | openMain reader => exact h.openMain hstep
  | attach reader sidecar => exact h.attach hclear hstep
  | close reader => exact h.close hstep

/-- **No unlink does harm in a run in which nobody attaches a sidecar beside the new main file before its removal**, and the
readers of the new database share its sidecars. -/
theorem harmless_of_clear {moves : List (Scene × Event)} (run : Run found moves s) (hclear : ∀ m ∈ moves, Clear m.1 m.2) :
    (∀ m ∈ moves, Harmless m.1 m.2) ∧ Shared s := by
  have hsettled : (∀ m ∈ moves, Settled m.1) ∧ Settled s := by
    induction run with
    | start h => exact ⟨fun m hm => absurd hm List.not_mem_nil, h.settled⟩
    | @step moves s s' run e hstep ih =>
        obtain ⟨hall, hs⟩ := ih fun m hm => hclear m (List.mem_append_left _ hm)
        refine ⟨fun m hm => ?_, hs.step (hclear (s, e) (List.mem_append_right _ (List.mem_singleton_self _))) hstep⟩
        cases List.mem_append.mp hm with
        | inl hold => exact hall m hold
        | inr hnew => exact List.mem_singleton.mp hnew ▸ hs
  exact ⟨fun m hm => (hsettled.1 m hm).harmless m.2, hsettled.2.shared⟩

end Moves

/-! ### A reader in the window -/

/-- A database without sidecars, and nobody who reads it. -/
def quietScene : Scene where
  main := some 0
  sidecar _ := none
  built := 1
  fresh := 2
  readers _ := none
  todo := program .verified

theorem starts_quietScene : Starts .verified quietScene where
  todo := rfl
  absent := ⟨fun h => (by cases h), fun h => (by cases h)⟩
  main h := by cases h
  readers _ _ h := by cases h

/-- The rename, then a reader, then the removals. -/
theorem openedInWindow_harmed : ∃ moves s, Run .verified moves s ∧ (∃ m ∈ moves, ¬Harmless m.1 m.2) ∧ ¬Shared s := by
  have hrenamed := ((Run.start starts_quietScene).step (.publish .removed) rfl).step (.publish .kept) rfl
  have hopened := (hrenamed.step (.openMain 0) rfl).step (.attach 0 .wal) rfl
  have hunlinked := (hopened.step (.publish .kept) rfl).step (.publish .kept) rfl
  refine ⟨_, _, hunlinked, ⟨_, List.mem_append_right _ (List.mem_singleton_self _), fun hharmless => ?_⟩, fun hshared => ?_⟩
  · exact hharmless .kept .wal [.look .shm] rfl rfl 0 ⟨1, _⟩ 2 rfl rfl rfl rfl
  · have hwal := hshared 0 ⟨1, _⟩ .wal 2 rfl rfl rfl
    cases hwal

/-- A reader that opens the new main file before the removals, and attaches its `-wal` when that has been removed. -/
theorem harmless_of_clear_late : ∃ moves s, Run .verified moves s ∧ moves.map Prod.snd =
    [.publish .removed, .publish .kept, .openMain 0, .publish .kept, .attach 0 .wal, .publish .kept] ∧
      (∀ m ∈ moves, Harmless m.1 m.2) ∧ Shared s := by
  have hrenamed := ((Run.start starts_quietScene).step (.publish .removed) rfl).step (.publish .kept) rfl
  have hopened := (hrenamed.step (.openMain 0) rfl).step (.publish .kept) rfl
  have hremoved := (hopened.step (.attach 0 .wal) rfl).step (.publish .kept) rfl
  refine ⟨_, _, hremoved, rfl, harmless_of_clear hremoved fun m hm reader sidecar r he hreader hmain => ?_⟩
  simp only [List.nil_append, List.cons_append, List.mem_cons, List.not_mem_nil, or_false] at hm
  rcases hm with rfl | rfl | rfl | rfl | rfl | rfl <;> cases he
  rintro (hlook | hunlink)
  · cases List.mem_singleton.mp hlook
  · cases List.mem_singleton.mp hunlink

end McapCatalog.SidecarWindow
