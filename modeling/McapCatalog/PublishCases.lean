import McapCatalog.Publish
import McapCatalog.Faults

/-!
# What the parts of a publish do

One lemma for each part: what it leaves at the served path when it goes through, and when it ends the publish.

* `gateVerdict`, `gateLoop_db` — what the gate comes to, by the outcomes of its attempts;
* `TakesForGarbage`, `LosesFrames` — the gate fails with a `sqlite3.Error` on a database whose `-wal` holds frames, and the
  publish ends after it has removed that;
* `clearServed_ok`, `clearServed_error` — the served path before the rename;
* `swap_ok`, `swap_error` — **up to the rename, a publish puts the committed temporary database at the served path, or it
  leaves there what a reader saw before**, unless it has lost frames.
-/

namespace McapCatalog.Publish

open McapCatalog.PyText McapCatalog.PyError McapCatalog.Tables McapCatalog.Connection McapCatalog.CatalogDb
open McapCatalog.SurvivingState McapCatalog.SurvivingState.Comp

variable {α : Type} {paths : Paths} {c : Circumstances} {dir dir' : Dir} {halt : Halt}

/-! ### Files -/

/-- The `-wal` holds no frames. -/
def Files.NoFrames (files : Files) : Prop := ∀ wal, files.wal = some wal → wal.frames = none

theorem Files.NoFrames.view {files : Files} (h : files.NoFrames) {generation : ℕ} {content : Db}
    (hmain : files.main = some (.db generation content)) : files.view = .content content := by
  rw [Files.view, hmain]
  cases hwal : files.wal with
  | none => rfl
  | some wal =>
      obtain ⟨g, frames⟩ := wal
      have hframes : frames = none := h _ hwal
      rw [hframes]

/-- Without a main file or with one that is no database, only the main file counts. -/
theorem view_of_main {files files' : Files} (hmain : files'.main = files.main)
    (hno : files.main = none ∨ files.main = some .garbage) : files'.view = files.view := by
  rw [Files.view, Files.view, hmain]
  cases hno with
  | inl hnone => rw [hnone]
  | inr hgarbage => rw [hgarbage]

theorem view_db {files : Files} {generation : ℕ} {content : Db} (hmain : files.main = some (.db generation content))
    (hview : files.view ≠ .torn) : ∃ db, files.view = .content db := by
  rw [Files.view, hmain] at hview ⊢
  dsimp only at hview ⊢
  split
  · split
    · exact ⟨_, rfl⟩
    · simp_all
  · exact ⟨_, rfl⟩

theorem checkpointed_db {files : Files} {db : Db} (h : files.view = .content db) :
    ∃ generation, files.checkpointed = ⟨some (.db generation db), some ⟨generation, none⟩, true⟩ := by
  rw [Files.checkpointed, h]
  rw [Files.view] at h
  cases hmain : files.main with
  | none => rw [hmain] at h; cases h
  | some main =>
      cases main with
      | garbage => rw [hmain] at h; cases h
      | db generation content => exact ⟨generation, rfl⟩

/-- A checkpoint keeps what a reader sees. -/
theorem view_checkpointed (files : Files) : files.checkpointed.view = files.view := by
  by_cases hcontent : ∃ db, files.view = .content db
  · obtain ⟨db, hview⟩ := hcontent
    obtain ⟨generation, hfiles⟩ := checkpointed_db hview
    rw [hfiles, hview]
    rfl
  · have hsame : files.checkpointed = files := by
      rw [Files.checkpointed]
      split
      · rename_i hview
        exact absurd ⟨_, hview⟩ hcontent
      · rfl
    rw [hsame]

/-! ### Stages -/

theorem stage_ok {s : Stage} {effect : Dir → Dir} {u : Unit} (h : stage c s effect dir = (.ok u, dir')) :
    dir' = effect dir := by
  rw [stage] at h
  cases hhalt : c.halts s with
  | some halt => rw [hhalt] at h; cases h
  | none => rw [hhalt] at h; cases h; rfl

theorem stage_error {s : Stage} {effect : Dir → Dir} (h : stage c s effect dir = (.error halt, dir')) : dir' = dir := by
  rw [stage] at h
  cases hhalt : c.halts s with
  | some halt => rw [hhalt] at h; cases h; rfl
  | none => rw [hhalt] at h; cases h

/-- The part leaves the served path alone, whichever way it exits. -/
def KeepsServed (m : Publishing α) : Prop := Within (fun _ => True) (fun dir dir' => dir'.served = dir.served) m

theorem KeepsServed.bind {β : Type} {m : Publishing α} {f : α → Publishing β} (hm : KeepsServed m)
    (hf : ∀ a, KeepsServed (f a)) : KeepsServed (m >>= f) :=
  Within.bind (fun _ _ _ h h' => h'.trans h) hm hf

theorem KeepsServed.served {m : Publishing α} (hm : KeepsServed m) (dir : Dir) : (m dir).2.served = dir.served :=
  (hm dir trivial).2

theorem keepsServed_pure (a : α) : KeepsServed (pure a : Publishing α) := fun _ _ => ⟨trivial, rfl⟩

theorem keepsServed_raise (e : PyErr) : KeepsServed (raiseError e : Publishing α) := fun _ _ => ⟨trivial, rfl⟩

theorem keepsServed_stage (s : Stage) {effect : Dir → Dir} (h : ∀ dir, (effect dir).served = dir.served) :
    KeepsServed (stage c s effect) := by
  refine fun dir _ => ⟨trivial, ?_⟩
  rw [stage]
  cases c.halts s with
  | some halt => rfl
  | none => exact h dir

theorem keepsServed_removeIfExists (s : Stage) (part : Part) : KeepsServed (removeIfExists c s .temp part) := by
  refine fun dir _ => ⟨trivial, ?_⟩
  rw [removeIfExists]
  split
  · exact (keepsServed_stage s fun dir => (rfl : (dir.remove part .temp).served = dir.served)).served dir
  · rfl

theorem keepsServed_cleanupTemp (s : Part → Stage) : KeepsServed (cleanupTemp c s) :=
  (keepsServed_removeIfExists _ _).bind fun _ => (keepsServed_removeIfExists _ _).bind fun _ =>
    keepsServed_removeIfExists _ _

theorem keepsServed_removeSidecars (s : Part → Stage) : KeepsServed (removeSidecars c s .temp) :=
  (keepsServed_removeIfExists _ _).bind fun _ => keepsServed_removeIfExists _ _

theorem KeepsServed.handle {m : Publishing α} {handler : PyErr → Publishing α} (hm : KeepsServed m)
    (hh : ∀ e, KeepsServed (handler e)) : KeepsServed (handle m handler) := by
  refine fun dir _ => ⟨trivial, ?_⟩
  have hserved := hm.served dir
  rw [Publish.handle]
  rcases hrun : m dir with ⟨out, dir'⟩
  rw [hrun] at hserved
  cases out with
  | ok a => exact hserved
  | error halt =>
      cases halt with
      | crash => exact hserved
      | raised e => exact ((hh e).served dir').trans hserved

theorem keepsServed_buildTemp (buildFn : Py α) : KeepsServed (buildTemp c buildFn) := by
  have hclose : ∀ (dir : Dir) db checkpointed, (dir.closeTemp db checkpointed).served = dir.served := by
    intro dir db checkpointed
    rw [Dir.closeTemp]
    split <;> rfl
  refine fun dir _ => ⟨trivial, ?_⟩
  rw [buildTemp]
  split
  · rfl
  · split
    · exact hclose _ _ _
    · exact hclose _ _ _

/-! ### The gate -/

/-- What the gate of a database comes to. -/
def gateVerdict (paths : Paths) : List (Except Halt CheckpointRow) → Except Halt CheckpointRow → Except Halt Unit
  | [], .error halt => .error halt
  | [], .ok row => if row.clean then .ok () else .error (.raised (publishBusyError paths row))
  | .error halt :: _, _ => .error halt
  | .ok row :: outcomes, last => if row.clean then .ok () else gateVerdict paths outcomes last

/-- An attempt on a database: a row that is not clean changes nothing. -/
theorem attemptGate_db {generation : ℕ} {content : Db} (hmain : dir.served.main = some (.db generation content))
    (row : CheckpointRow) : attemptGate (.ok row) dir =
      (.ok row, if row.clean then { dir with served := dir.served.checkpointed } else dir) := by
  rw [attemptGate, hmain]

theorem gateLoop_db {generation : ℕ} {content : Db} (hmain : dir.served.main = some (.db generation content))
    (outcomes : List (Except Halt CheckpointRow)) (last : Except Halt CheckpointRow) :
    gateLoop paths outcomes last dir = match gateVerdict paths outcomes last with
      | .ok _ => (.ok (), { dir with served := dir.served.checkpointed })
      | .error halt => (.error halt, dir) := by
  induction outcomes with
  | nil =>
      cases last with
      | error halt => rfl
      | ok row =>
          rw [gateLoop, bind_of_ok (attemptGate_db hmain row), gateVerdict]
          cases row.clean <;> rfl
  | cons outcome outcomes ih =>
      cases outcome with
      | error halt => rfl
      | ok row =>
          rw [gateLoop, bind_of_ok (attemptGate_db hmain row), gateVerdict]
          cases row.clean with
          | true => rfl
          | false => exact ih

/-- On a file that is no database the first attempt raises. -/
theorem gateLoop_garbage (hmain : dir.served.main = some .garbage) (outcomes : List (Except Halt CheckpointRow))
    (last : Except Halt CheckpointRow) : ∃ halt, gateLoop paths outcomes last dir = (.error halt, dir) := by
  have hattempt : ∀ outcome, ∃ halt, attemptGate outcome dir = (.error halt, dir) := by
    intro outcome
    cases outcome with
    | error halt => exact ⟨halt, rfl⟩
    | ok row => exact ⟨.raised notADatabaseError, by rw [attemptGate, hmain]⟩
  cases outcomes with
  | nil =>
      obtain ⟨halt, h⟩ := hattempt last
      exact ⟨halt, by rw [gateLoop, bind_of_error h]⟩
  | cons outcome outcomes =>
      obtain ⟨halt, h⟩ := hattempt outcome
      exact ⟨halt, by rw [gateLoop, bind_of_error h]⟩

/-- **The gate** checkpoints a database and returns, or raises and leaves everything alone. -/
theorem gateOldServedDb_cases {out : Except Halt Unit} {main : Main} (hmain : dir.served.main = some main)
    (h : gateOldServedDb paths c dir = (out, dir')) :
    out = .ok () ∧ (∃ generation content, main = .db generation content) ∧
        dir' = { dir with served := dir.served.checkpointed } ∨
      dir' = dir ∧ ∃ halt, out = .error halt ∧
        ∀ generation content, main = .db generation content → gateVerdict paths c.attempts c.lastAttempt = .error halt := by
  rw [gateOldServedDb] at h
  cases main with
  | garbage =>
      obtain ⟨halt, hgate⟩ := gateLoop_garbage hmain c.attempts c.lastAttempt
      rw [hgate] at h
      cases h
      exact Or.inr ⟨rfl, halt, rfl, fun _ _ hdb => by cases hdb⟩
  | db generation content =>
      rw [gateLoop_db hmain] at h
      cases hverdict : gateVerdict paths c.attempts c.lastAttempt with
      | ok u =>
          rw [hverdict] at h
          cases h
          exact Or.inl ⟨rfl, ⟨_, _, rfl⟩, rfl⟩
      | error halt =>
          rw [hverdict] at h
          cases h
          exact Or.inr ⟨rfl, halt, rfl, fun _ _ _ => rfl⟩

/-- A handler runs only after an exception. -/
theorem handle_cases {m : Publishing α} {handler : PyErr → Publishing α} {out : Except Halt α}
    (h : handle m handler dir = (out, dir')) :
    m dir = (out, dir') ∨ ∃ e dir₁, m dir = (.error (.raised e), dir₁) ∧ handler e dir₁ = (out, dir') := by
  rw [handle] at h
  split at h
  · rename_i e dir₁ hm
    exact Or.inr ⟨e, dir₁, hm, h⟩
  · exact Or.inl h

/-- The gate raises a `sqlite3.Error` on a database whose `-wal` holds frames: it is taken for garbage. -/
def TakesForGarbage (paths : Paths) (c : Circumstances) (dir : Dir) : Prop :=
  (∃ generation content, dir.served.main = some (.db generation content)) ∧ ¬dir.served.NoFrames ∧
    ∃ e, gateVerdict paths c.attempts c.lastAttempt = .error (.raised e) ∧ isSqliteError e = true

/-- The publish has built its database, takes the served one for garbage, removes its `-wal`, and ends before the rename. -/
def LosesFrames (paths : Paths) (c : Circumstances) (buildFn : Py α) (dir : Dir) : Prop :=
  (∃ result dir₁, buildAside paths c buildFn dir = (.ok result, dir₁)) ∧ TakesForGarbage paths c dir ∧
    c.halts (.servedSidecar .wal) = none ∧
    (dir.served.shm = true ∧ c.halts (.servedSidecar .shm) ≠ none ∨ c.halts .replace ≠ none)

/-! ### The served path before the rename -/

theorem removeIfExists_absent {s : Stage} {place : Place} {part : Part} (hhas : (dir.files place).has part = false) :
    removeIfExists c s place part dir = (.ok (), dir) := by
  rw [removeIfExists, hhas]
  rfl

theorem removeIfExists_removed {s : Stage} {place : Place} {part : Part} (hhas : (dir.files place).has part = true)
    (hhalt : c.halts s = none) : removeIfExists c s place part dir = (.ok (), dir.remove part place) := by
  rw [removeIfExists, if_pos hhas, stage, hhalt]

theorem removeIfExists_halted {s : Stage} {place : Place} {part : Part} (hhas : (dir.files place).has part = true)
    (hhalt : c.halts s = some halt) : removeIfExists c s place part dir = (.error halt, dir) := by
  rw [removeIfExists, if_pos hhas, stage, hhalt]

/-- A file that is not removed, or removed. -/
theorem removeIfExists_served (s : Stage) {part : Part} (hpart : part ≠ .main) {out : Except Halt Unit}
    (h : removeIfExists c s .served part dir = (out, dir')) :
    dir'.temp = dir.temp ∧ dir'.served.main = dir.served.main ∧ (dir.served.NoFrames → dir'.served.NoFrames) ∧
      (part = .wal → out = .ok () → dir'.served.wal = none) ∧ (part = .shm → dir'.served.wal = dir.served.wal) := by
  rw [removeIfExists] at h
  split at h
  · rw [stage] at h
    cases hhalt : c.halts s with
    | some halt =>
        rw [hhalt] at h
        cases h
        exact ⟨rfl, rfl, id, fun _ hout => (by cases hout), fun _ => rfl⟩
    | none =>
        rw [hhalt] at h
        cases h
        cases part with
        | main => exact absurd rfl hpart
        | wal => exact ⟨rfl, rfl, fun _ wal hwal => (by cases hwal), fun _ _ => rfl, fun hshm => by cases hshm⟩
        | shm => exact ⟨rfl, rfl, id, fun hwal => (by cases hwal), fun _ => rfl⟩
  · rename_i hhas
    cases h
    refine ⟨rfl, rfl, id, fun hwal _ => ?_, fun _ => rfl⟩
    rw [hwal] at hhas
    cases hfiles : dir.served.wal with
    | none => rfl
    | some wal =>
        have hsome : (dir.files .served).has .wal = true := by
          show dir.served.wal.isSome = true
          rw [hfiles]
          rfl
        exact absurd hsome hhas

theorem removeSidecars_served (s : Part → Stage) {out : Except Halt Unit}
    (h : removeSidecars c s .served dir = (out, dir')) :
    dir'.temp = dir.temp ∧ dir'.served.main = dir.served.main ∧ (dir.served.NoFrames → dir'.served.NoFrames) ∧
      (out = .ok () → dir'.served.wal = none) := by
  rw [removeSidecars, bind_apply] at h
  rcases hwal : removeIfExists c (s .wal) .served .wal dir with ⟨out₁, dir₁⟩
  obtain ⟨htemp, hmain, hframes, hgone, _⟩ := removeIfExists_served _ (by decide) hwal
  rw [hwal] at h
  cases out₁ with
  | error halt =>
      cases h
      exact ⟨htemp, hmain, hframes, fun hout => by cases hout⟩
  | ok u =>
      obtain ⟨htemp', hmain', hframes', _, hkept⟩ := removeIfExists_served _ (by decide) h
      refine ⟨htemp'.trans htemp, hmain'.trans hmain, fun hno => hframes' (hframes hno), fun _ => ?_⟩
      rw [hkept rfl]
      exact hgone rfl rfl

/-- The two ways to take the handlers of the gate. -/
theorem gateFailed_cases {e : PyErr} {out : Except Halt Unit} (h : gateFailed c e dir = (out, dir')) :
    (∃ halt, out = .error halt) ∧ dir'.served = dir.served ∨
      isSqliteError e = true ∧ removeSidecars c .servedSidecar .served dir = (out, dir') := by
  rw [gateFailed] at h
  split at h
  · have hserved : KeepsServed (cleanupTemp c .discard >>= fun _ => (raiseError e : Publishing Unit)) :=
      (keepsServed_cleanupTemp _).bind fun _ => keepsServed_raise e
    have hkept := hserved.served dir
    rw [bind_apply] at h hkept
    rcases hclean : cleanupTemp c .discard dir with ⟨out₁, dir₁⟩
    rw [hclean] at h hkept
    cases out₁ with
    | error halt =>
        cases h
        exact Or.inl ⟨⟨halt, rfl⟩, hkept⟩
    | ok u =>
        cases h
        exact Or.inl ⟨⟨_, rfl⟩, hkept⟩
  · split at h
    · rename_i hsqlite
      exact Or.inr ⟨hsqlite, h⟩
    · cases h
      exact Or.inl ⟨⟨_, rfl⟩, rfl⟩

/-- A stage that ends the publish before the `-wal` is removed. -/
theorem removeSidecars_halted {s : Part → Stage} (hwal : dir.served.wal.isSome = true)
    (hhalt : c.halts (s .wal) = some halt) : removeSidecars c s .served dir = (.error halt, dir) :=
  bind_of_error (removeIfExists_halted hwal hhalt)

/-- Sidecars removed, from beside no database, from beside one without frames, or not at all. -/
theorem removeSidecars_view {s : Part → Stage} {out : Except Halt Unit} (h : removeSidecars c s .served dir = (out, dir'))
    (hno : dir.served.main = none ∨ dir.served.main = some .garbage ∨ dir.served.NoFrames ∨ c.halts (s .wal) ≠ none) :
    dir'.served.view = dir.served.view := by
  obtain ⟨_, hmain, hframes, _⟩ := removeSidecars_served _ h
  have hnone : ∀ {generation content}, dir.served.main = some (.db generation content) → dir.served.NoFrames →
      dir'.served.view = dir.served.view := by
    intro generation content hfiles hnone
    rw [hnone.view hfiles, (hframes hnone).view (hmain.trans hfiles)]
  cases hfiles : dir.served.main with
  | none => exact view_of_main hmain (Or.inl hfiles)
  | some main =>
      cases main with
      | garbage => exact view_of_main hmain (Or.inr hfiles)
      | db generation content =>
          rw [hfiles] at hno
          rcases hno with hno | hno | hno | hno
          · cases hno
          · cases hno
          · exact hnone hfiles hno
          · obtain ⟨halt, hhalt⟩ := Option.ne_none_iff_exists'.mp hno
            cases hwal : dir.served.wal with
            | none => exact hnone hfiles fun wal h => by rw [hwal] at h; cases h
            | some wal =>
                have hsome : dir.served.wal.isSome = true := Option.isSome_iff_exists.mpr ⟨_, hwal⟩
                rw [removeSidecars_halted hsome hhalt] at h
                cases h
                rfl

/-- **A served path that is ready** for the rename has no frames, and the temporary files are as they were. -/
theorem clearServed_ok (hview : dir.served.view ≠ .torn) (h : clearServed paths c dir = (.ok (), dir')) :
    dir'.temp = dir.temp ∧ dir'.served.NoFrames := by
  have hremoved : ∀ {dir₁ : Dir}, dir₁ = dir → removeSidecars c .servedSidecar .served dir₁ = (.ok (), dir') →
      dir'.temp = dir.temp ∧ dir'.served.NoFrames := by
    rintro dir₁ rfl hremove
    obtain ⟨htemp, _, _, hgone⟩ := removeSidecars_served _ hremove
    refine ⟨htemp, fun wal hwal => ?_⟩
    rw [hgone rfl] at hwal
    cases hwal
  rw [clearServed, bind_of_ok (look_apply dir)] at h
  cases hmain : dir.served.main with
  | none =>
      rw [hmain] at h
      exact hremoved rfl h
  | some main =>
      rw [hmain, if_pos Option.isSome_some] at h
      rcases handle_cases h with hgate | ⟨e, dir₁, hgate, hfailed⟩
      · rcases gateOldServedDb_cases hmain hgate with ⟨_, ⟨generation, content, rfl⟩, rfl⟩ | ⟨_, halt, hout, _⟩
        · obtain ⟨db, hcontent⟩ := view_db hmain hview
          obtain ⟨g, hfiles⟩ := checkpointed_db hcontent
          refine ⟨rfl, fun wal hwal => ?_⟩
          rw [hfiles] at hwal
          cases hwal
          rfl
        · cases hout
      · rcases gateOldServedDb_cases hmain hgate with ⟨hout, _⟩ | ⟨rfl, halt, hout, _⟩
        · cases hout
        · rcases gateFailed_cases hfailed with ⟨⟨halt, hout⟩, _⟩ | ⟨_, hremove⟩
          · cases hout
          · exact hremoved rfl hremove

/-- **What a reader sees** at the served path stays before the rename, unless a database is taken for garbage and its `-wal`
is removed. -/
theorem clearServed_view {out : Except Halt Unit}
    (hspared : TakesForGarbage paths c dir → c.halts (.servedSidecar .wal) ≠ none)
    (h : clearServed paths c dir = (out, dir')) : dir'.served.view = dir.served.view := by
  rw [clearServed, bind_of_ok (look_apply dir)] at h
  cases hmain : dir.served.main with
  | none =>
      rw [hmain] at h
      exact removeSidecars_view h (Or.inl hmain)
  | some main =>
      rw [hmain, if_pos Option.isSome_some] at h
      rcases handle_cases h with hgate | ⟨e, dir₁, hgate, hfailed⟩
      · rcases gateOldServedDb_cases hmain hgate with ⟨_, _, rfl⟩ | ⟨rfl, _⟩
        · exact view_checkpointed _
        · rfl
      · rcases gateOldServedDb_cases hmain hgate with ⟨hout, _⟩ | ⟨rfl, halt, hout, hverdict⟩
        · cases hout
        · cases hout
          rcases gateFailed_cases hfailed with ⟨_, hserved⟩ | ⟨hsqlite, hremove⟩
          · rw [hserved]
          · refine removeSidecars_view hremove (Or.inr ?_)
            cases main with
            | garbage => exact Or.inl hmain
            | db generation content =>
                refine Or.inr ?_
                by_cases hframes : dir₁.served.NoFrames
                · exact Or.inl hframes
                · exact Or.inr (hspared ⟨⟨_, _, hmain⟩, hframes, e, hverdict _ _ rfl, hsqlite⟩)

/-- A gate that fails on a database. -/
theorem clearServed_failed {generation : ℕ} {content : Db} (hmain : dir.served.main = some (.db generation content))
    (hverdict : gateVerdict paths c.attempts c.lastAttempt = .error halt) :
    clearServed paths c dir = handle (raise halt) (gateFailed c) dir := by
  rw [clearServed, bind_of_ok (look_apply dir), hmain, if_pos Option.isSome_some, handle, gateOldServedDb, gateLoop_db hmain,
    hverdict]
  rfl

theorem clearServed_sqliteError {generation : ℕ} {content : Db} {e : PyErr}
    (hmain : dir.served.main = some (.db generation content))
    (hverdict : gateVerdict paths c.attempts c.lastAttempt = .error (.raised e)) (hsqlite : isSqliteError e = true) :
    clearServed paths c dir = removeSidecars c .servedSidecar .served dir := by
  have hbusy : isPublishBusy e = false := by
    cases e with
    | other name msg =>
        by_contra hname
        have heq : name = py "PublishBusyError" := by simpa [isPublishBusy] using hname
        rw [heq, isSqliteError] at hsqlite
        exact absurd hsqlite (by decide +kernel)
    | _ => rfl
  rw [clearServed_failed hmain hverdict]
  show gateFailed c e dir = _
  rw [gateFailed, hbusy, if_neg Bool.false_ne_true, if_pos hsqlite]

/-- A database that is taken for garbage loses its sidecars, if nothing else goes wrong. -/
theorem clearServed_taken (htaken : TakesForGarbage paths c dir) (hwal : c.halts (.servedSidecar .wal) = none)
    (hshm : dir.served.shm = true → c.halts (.servedSidecar .shm) = none) :
    ∃ dir', clearServed paths c dir = (.ok (), dir') := by
  obtain ⟨⟨generation, content, hmain⟩, _, e, hverdict, hsqlite⟩ := htaken
  have hremove : ∀ part dir, ((dir.files .served).has part = true → c.halts (.servedSidecar part) = none) →
      ∃ dir', removeIfExists c (.servedSidecar part) .served part dir = (.ok (), dir') := by
    intro part dir hnone
    cases hhas : (dir.files .served).has part with
    | false => exact ⟨_, removeIfExists_absent hhas⟩
    | true => exact ⟨_, removeIfExists_removed hhas (hnone hhas)⟩
  obtain ⟨dir₁, h₁⟩ := hremove .wal dir fun _ => hwal
  have hkept : dir₁.served.shm = dir.served.shm := by
    rw [removeIfExists] at h₁
    split at h₁
    · rw [stage_ok h₁]
      rfl
    · cases h₁
      rfl
  obtain ⟨dir₂, h₂⟩ := hremove .shm dir₁ fun hhas => hshm (hkept ▸ hhas)
  refine ⟨dir₂, ?_⟩
  rw [clearServed_sqliteError hmain hverdict hsqlite, removeSidecars, bind_of_ok h₁, h₂]

/-! ### The build -/

/-- **A build that goes through** leaves its committed database as a single file. -/
theorem buildTemp_ok {buildFn : Py α} {result : α} {row : CheckpointRow} {generation : ℕ} {content : Db}
    (hmain : dir.temp.main = some (.db generation content)) (h : buildTemp c buildFn dir = (.ok (result, row), dir')) :
    ∃ w, buildTempDb (readOldBuildId c dir.served) (readOldOverrides c dir.served) c.tempCheckpoint buildFn
        (freshWorld c) = (.ok (result, row), w) ∧
      (row.clean = true → dir'.temp.main = some (.db generation w.conn.committed)) ∧ dir'.served = dir.served := by
  rw [buildTemp] at h
  cases hhalt : c.halts .build with
  | some halt => rw [hhalt] at h; cases h
  | none =>
      rw [hhalt] at h
      rcases hrun : buildTempDb (readOldBuildId c dir.served) (readOldOverrides c dir.served) c.tempCheckpoint buildFn
        (freshWorld c) with ⟨out, w⟩
      rw [hrun] at h
      cases out with
      | error e => cases h
      | ok built =>
          cases h
          refine ⟨w, rfl, fun hclean => ?_, ?_⟩
          · rw [Dir.closeTemp, hmain, hclean]
            rfl
          · rw [Dir.closeTemp, hmain]

/-- A sidecar removed leaves the main files alone. -/
theorem removeIfExists_main {s : Stage} {place : Place} {part : Part} (hpart : part ≠ .main) {out : Except Halt Unit}
    (h : removeIfExists c s place part dir = (out, dir')) (p : Place) : (dir'.files p).main = (dir.files p).main := by
  rw [removeIfExists] at h
  split at h
  · rw [stage] at h
    cases hhalt : c.halts s with
    | some halt => rw [hhalt] at h; cases h; rfl
    | none =>
        rw [hhalt] at h
        cases h
        cases part with
        | main => exact absurd rfl hpart
        | wal => cases place <;> cases p <;> rfl
        | shm => cases place <;> cases p <;> rfl
  · cases h
    rfl

theorem removeSidecars_main {s : Part → Stage} {place : Place} {out : Except Halt Unit}
    (h : removeSidecars c s place dir = (out, dir')) (p : Place) : (dir'.files p).main = (dir.files p).main := by
  rw [removeSidecars] at h
  cases out with
  | error halt =>
      rcases bind_eq_error h with hwal | ⟨_, dir₁, hwal, hshm⟩
      · exact removeIfExists_main (by decide) hwal p
      · exact (removeIfExists_main (by decide) hshm p).trans (removeIfExists_main (by decide) hwal p)
  | ok u =>
      obtain ⟨_, dir₁, hwal, hshm⟩ := bind_eq_ok h
      exact (removeIfExists_main (by decide) hshm p).trans (removeIfExists_main (by decide) hwal p)

/-- The build with its handler, which always raises. -/
theorem handledBuild_ok {buildFn : Py α} {built : α × CheckpointRow}
    (h : handle (buildTemp c buildFn) (fun e => do cleanupTemp c .discard; raiseError e) dir = (.ok built, dir')) :
    buildTemp c buildFn dir = (.ok built, dir') := by
  rcases handle_cases h with hbuild | ⟨e, dir₁, _, hfailed⟩
  · exact hbuild
  · obtain ⟨_, dir₂, _, hraise⟩ := bind_eq_ok hfailed
    cases hraise

/-! ### The publish -/

theorem keepsServed_buildAside (buildFn : Py α) : KeepsServed (buildAside paths c buildFn) := by
  have hopen : KeepsServed (stage c .openTemp Dir.openTemp) := keepsServed_stage _ fun _ => rfl
  refine (keepsServed_cleanupTemp _).bind fun _ => hopen.bind fun _ =>
    KeepsServed.bind ((keepsServed_buildTemp buildFn).handle fun e =>
      (keepsServed_cleanupTemp _).bind fun _ => keepsServed_raise e) fun built => ?_
  have hrest : KeepsServed (removeSidecars c .tempSidecar .temp >>= fun _ => (pure built.1 : Publishing α)) :=
    (keepsServed_removeSidecars _).bind fun _ => keepsServed_pure _
  dsimp only
  split
  · have hraise : KeepsServed (raiseError (tempCheckpointError paths built.2) : Publishing Unit) := keepsServed_raise _
    exact (keepsServed_cleanupTemp _).bind fun _ => hraise.bind fun _ => hrest
  · exact hrest

/-- **The temporary database, as a single file**, is what its build committed. -/
theorem buildAside_ok {buildFn : Py α} {result : α} (h : buildAside paths c buildFn dir = (.ok result, dir')) :
    ∃ row w generation, buildTempDb (readOldBuildId c dir.served) (readOldOverrides c dir.served) c.tempCheckpoint buildFn
        (freshWorld c) = (.ok (result, row), w) ∧ row.clean = true ∧
      dir'.temp.main = some (.db generation w.conn.committed) := by
  rw [buildAside] at h
  obtain ⟨_, dir₁, hclean, h⟩ := bind_eq_ok h
  obtain ⟨_, dir₂, hopen, h⟩ := bind_eq_ok h
  obtain ⟨⟨result', row⟩, dir₃, hbuild, h⟩ := bind_eq_ok h
  have hserved : dir₂.served = dir.served := by
    have hkept := (keepsServed_cleanupTemp (c := c) .cleanup).served dir
    rw [hclean] at hkept
    rw [stage_ok hopen]
    exact hkept
  have htemp : dir₂.temp.main = some (.db dir₁.created Db.empty) := by
    rw [stage_ok hopen]
    rfl
  obtain ⟨w, hrun, hmain, _⟩ := buildTemp_ok htemp (handledBuild_ok hbuild)
  rw [hserved] at hrun
  dsimp only at h
  cases hrow : row.clean with
  | false =>
      rw [hrow] at h
      obtain ⟨_, _, _, h⟩ := bind_eq_ok h
      obtain ⟨_, _, hraise, _⟩ := bind_eq_ok h
      cases hraise
  | true =>
      rw [hrow] at h
      obtain ⟨_, dir₄, hsidecars, hpure⟩ := bind_eq_ok h
      cases hpure
      exact ⟨row, w, _, hrun, hrow, (removeSidecars_main hsidecars .temp).trans (hmain hrow)⟩

/-- **A publish that reaches the rename** has put the database that its build committed at the served path. -/
theorem swap_ok {buildFn : Py α} {result : α} (hview : dir.served.view ≠ .torn)
    (h : swap paths c buildFn dir = (.ok result, dir')) :
    ∃ row w generation, buildTempDb (readOldBuildId c dir.served) (readOldOverrides c dir.served) c.tempCheckpoint buildFn
        (freshWorld c) = (.ok (result, row), w) ∧ row.clean = true ∧
      dir'.served.main = some (.db generation w.conn.committed) ∧ dir'.served.NoFrames := by
  rw [swap] at h
  obtain ⟨result', dir₁, hbuild, h⟩ := bind_eq_ok h
  obtain ⟨_, dir₂, hclear, h⟩ := bind_eq_ok h
  obtain ⟨_, dir₃, hreplace, hpure⟩ := bind_eq_ok h
  cases hpure
  have hkeeps : KeepsServed (buildAside paths c buildFn) := keepsServed_buildAside buildFn
  have hserved := hkeeps.served dir
  rw [hbuild] at hserved
  obtain ⟨row, w, generation, hrun, hrow, hmain⟩ := buildAside_ok hbuild
  obtain ⟨htemp, hframes⟩ := clearServed_ok (by rw [hserved]; exact hview) hclear
  rw [stage_ok hreplace]
  refine ⟨row, w, generation, hrun, hrow, ?_, hframes⟩
  show dir₂.temp.main = _
  rw [htemp, hmain]

/-- **A publish that ends before the rename** leaves what a reader sees, unless it has removed the `-wal` of a database. -/
theorem swap_error {buildFn : Py α} (hspared : ¬LosesFrames paths c buildFn dir)
    (h : swap paths c buildFn dir = (.error halt, dir')) : dir'.served.view = dir.served.view := by
  have hkeeps : KeepsServed (buildAside paths c buildFn) := keepsServed_buildAside buildFn
  have hserved := hkeeps.served dir
  rw [swap] at h
  rcases bind_eq_error h with hbuild | ⟨result, dir₁, hbuild, h⟩
  · rw [hbuild] at hserved
    exact congrArg Files.view hserved
  rw [hbuild] at hserved
  have htaken : TakesForGarbage paths c dir₁ → TakesForGarbage paths c dir := by
    rw [TakesForGarbage, TakesForGarbage, hserved]
    exact id
  rw [← hserved]
  by_cases hlast : TakesForGarbage paths c dir₁ ∧ c.halts (.servedSidecar .wal) = none
  · -- Nothing else goes wrong, so the rename is reached.
    have hrest : (dir₁.served.shm = true → c.halts (.servedSidecar .shm) = none) ∧ c.halts .replace = none := by
      rw [hserved]
      by_contra hhalts
      refine hspared ⟨⟨result, dir₁, hbuild⟩, htaken hlast.1, hlast.2, ?_⟩
      rcases not_and_or.mp hhalts with hshm | hreplace
      · exact Or.inl (Classical.not_imp.mp hshm)
      · exact Or.inr hreplace
    obtain ⟨dir₂, hclear⟩ := clearServed_taken hlast.1 hlast.2 hrest.1
    rw [bind_of_ok hclear, bind_apply, stage, hrest.2] at h
    cases h
  · have hhalts : TakesForGarbage paths c dir₁ → c.halts (.servedSidecar .wal) ≠ none :=
      fun htaken hnone => hlast ⟨htaken, hnone⟩
    rcases bind_eq_error h with hclear | ⟨_, dir₂, hclear, h⟩
    · exact clearServed_view hhalts hclear
    · rw [← clearServed_view hhalts hclear]
      rcases bind_eq_error h with hreplace | ⟨_, dir₃, _, hpure⟩
      · rw [stage_error hreplace]
      · cases hpure

/-- Past the rename only the stale sidecars go. -/
theorem buildAndPublish_removed {buildFn : Py α} {out : Except Halt α}
    (h : buildAndPublish paths c buildFn dir = (out, dir')) :
    (∃ halt, out = .error halt ∧ swap paths c buildFn dir = (.error halt, dir')) ∨
      ∃ result dir₁ out₁, swap paths c buildFn dir = (.ok result, dir₁) ∧
        removeSidecars c .staleSidecar .served dir₁ = (out₁, dir') := by
  rw [buildAndPublish] at h
  rcases hswap : swap paths c buildFn dir with ⟨out₁, dir₁⟩
  cases out₁ with
  | error halt =>
      rw [bind_of_error hswap] at h
      cases h
      exact Or.inl ⟨halt, rfl, rfl⟩
  | ok result =>
      rw [bind_of_ok hswap] at h
      rcases hremove : removeSidecars c .staleSidecar .served dir₁ with ⟨out₂, dir₂⟩
      refine Or.inr ⟨result, dir₁, out₂, rfl, ?_⟩
      rw [hremove]
      refine Prod.ext rfl ?_
      cases out₂ with
      | error halt =>
          rw [bind_of_error hremove] at h
          cases h
          rfl
      | ok u =>
          rw [bind_of_ok hremove] at h
          cases out with
          | ok result' =>
              obtain ⟨_, dir₃, hfsync, hpure⟩ := bind_eq_ok h
              cases hpure
              exact (stage_ok hfsync).symm
          | error halt =>
              rcases bind_eq_error h with hfsync | ⟨_, _, _, hpure⟩
              · exact (stage_error hfsync).symm
              · cases hpure

/-- Past the rename nothing more changes for a reader. -/
theorem buildAndPublish_cases {buildFn : Py α} {out : Except Halt α}
    (h : buildAndPublish paths c buildFn dir = (out, dir')) :
    (∃ halt, out = .error halt ∧ swap paths c buildFn dir = (.error halt, dir')) ∨
      ∃ result dir₁, swap paths c buildFn dir = (.ok result, dir₁) ∧ dir'.served.main = dir₁.served.main ∧
        (dir₁.served.NoFrames → dir'.served.NoFrames) := by
  refine (buildAndPublish_removed h).imp_right fun hswapped => ?_
  obtain ⟨result, dir₁, _, hswap, hremove⟩ := hswapped
  obtain ⟨_, hmain, hframes, _⟩ := removeSidecars_served _ hremove
  exact ⟨result, dir₁, hswap, hmain, hframes⟩

end McapCatalog.Publish
