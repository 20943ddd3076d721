import McapCatalog.Fingerprint
import McapCatalog.PublishCases

/-!
# What a publish does to the served database

* `GarbageOnly` — the gate raises a `sqlite3.Error` for a file that is no database, and only then;
* `publish_crashSafe` — **under it, wherever a publish ends, a reader sees the old database or the new one**;
* `Guarded` — a healthy database is given up only after its `-wal` was seen empty;
* `guarded_iff` — **a publish does so exactly if it does not reach the branch that takes the database for garbage**;
* `locked_not_guarded` — a database that was locked for a moment.
-/

namespace McapCatalog.Publish

open McapCatalog.PyText McapCatalog.PyError McapCatalog.Tables McapCatalog.Connection McapCatalog.CatalogDb
open McapCatalog.Builder
open McapCatalog.SurvivingState McapCatalog.SurvivingState.Comp

variable {α : Type} {paths : Paths} {c : Circumstances} {dir dir' : Dir}

/-! ### Crashes -/

/-- On a database, no attempt of the gate raises a `sqlite3.Error`. -/
def GarbageOnly (c : Circumstances) : Prop := ∀ e, .error (.raised e) ∈ c.lastAttempt :: c.attempts → isSqliteError e = false

theorem isSqliteError_publishBusyError (paths : Paths) (row : CheckpointRow) :
    isSqliteError (publishBusyError paths row) = false := by
  rw [publishBusyError, isSqliteError]
  decide +kernel

theorem isSqliteError_of_gateVerdict {outcomes : List (Except Halt CheckpointRow)} {last : Except Halt CheckpointRow}
    (hgate : ∀ e, .error (.raised e) ∈ last :: outcomes → isSqliteError e = false) {e : PyErr}
    (h : gateVerdict paths outcomes last = .error (.raised e)) : isSqliteError e = false := by
  induction outcomes with
  | nil =>
      cases last with
      | error halt =>
          cases h
          exact hgate e List.mem_cons_self
      | ok row =>
          rw [gateVerdict] at h
          split at h
          · cases h
          · cases h
            exact isSqliteError_publishBusyError paths row
  | cons outcome outcomes ih =>
      cases outcome with
      | error halt =>
          cases h
          exact hgate e (List.mem_cons_of_mem _ List.mem_cons_self)
      | ok row =>
          rw [gateVerdict] at h
          split at h
          · cases h
          · refine ih (fun e' he' => hgate e' ?_) h
            cases List.mem_cons.mp he' with
            | inl hlast => exact hlast ▸ List.mem_cons_self
            | inr hrest => exact List.mem_cons_of_mem _ (List.mem_cons_of_mem _ hrest)

theorem GarbageOnly.not_taken (hgate : GarbageOnly c) : ¬TakesForGarbage paths c dir := by
  rintro ⟨_, _, e, hverdict, hsqlite⟩
  rw [isSqliteError_of_gateVerdict hgate hverdict] at hsqlite
  cases hsqlite

/-- **Wherever a publish ends**, by a crash or an exception after any stage or by returning, a reader of the served path sees
what it saw before, if the rename was not reached, and the whole database that the build committed, if it was; no frames are
left beside that. -/
theorem publish_crashSafe {buildFn : Py α} {out : Except Halt α} (hview : dir.served.view ≠ .torn) (hgate : GarbageOnly c)
    (h : buildAndPublish paths c buildFn dir = (out, dir')) :
    dir'.served.view ≠ .torn ∧
      ((∃ halt, swap paths c buildFn dir = (.error halt, dir') ∧ out = .error halt ∧ dir'.served.view = dir.served.view) ∨
        ∃ result dir₁ row w, swap paths c buildFn dir = (.ok result, dir₁) ∧
          buildTempDb (readOldBuildId c dir.served) (readOldOverrides c dir.served) c.tempCheckpoint buildFn (freshWorld c) =
            (.ok (result, row), w) ∧ row.clean = true ∧
          dir'.served.view = .content w.conn.committed ∧ dir'.served.NoFrames) := by
  rcases buildAndPublish_cases h with ⟨halt, hout, hswap⟩ | ⟨result, dir₁, hswap, hmain, hframes⟩
  · have hsame := swap_error (fun hloses => hgate.not_taken hloses.2.1) hswap
    refine ⟨?_, Or.inl ⟨halt, hswap, hout, hsame⟩⟩
    rw [hsame]
    exact hview
  · obtain ⟨row, w, generation, hbuild, hclean, hmain₁, hframes₁⟩ := swap_ok hview hswap
    have hcontent := (hframes hframes₁).view (hmain.trans hmain₁)
    refine ⟨?_, Or.inr ⟨result, dir₁, row, w, hswap, hbuild, hclean, hcontent, hframes hframes₁⟩⟩
    rw [hcontent]
    intro htorn
    cases htorn

/-- A build of nothing. -/
def emptyBuild : Py Unit := recordBuild oneTopicEnv 0 0 (py "ok")

/-- A publish around which nothing goes wrong, but for the gate and the rename. -/
def circumstancesOf (gate : Except Halt CheckpointRow) (rename : Option Halt) : Circumstances where
  halts s := if s = .replace then rename else none
  faults := []
  clock := 0
  buildIdRaises := false
  overridesRaise := false
  tempCheckpoint := ⟨false, ⟨0, 0, 0⟩⟩
  attempts := []
  lastAttempt := gate

/-- The paths of the examples. -/
def catalogPaths : Paths := ⟨py "'/data/catalog.db'", py "'/data/catalog.db.building'"⟩

/-- No database yet. -/
def noDir : Dir := ⟨Files.absent, Files.absent, 0⟩

/-- Nothing goes wrong. -/
def calm : Circumstances := circumstancesOf (.ok ⟨0, 0, 0⟩) none

/-- A database with this build. -/
def builtDb (buildId : ℕ) : Db := { Db.empty with buildMetadata := some ⟨buildId, 1, 0, 0, py "ok", builderVersion⟩ }

/-- A served database whose last build is still in its `-wal`. -/
def servedDir : Dir := ⟨⟨some (.db 0 (builtDb 4)), some ⟨0, some (builtDb 5)⟩, true⟩, Files.absent, 1⟩

theorem publish_crashSafe_servedDir :
    (buildAndPublish catalogPaths (circumstancesOf (.ok ⟨0, 0, 0⟩) (some .crash)) emptyBuild servedDir).2.served.view ≠
      .torn := by
  have hgate : GarbageOnly (circumstancesOf (.ok ⟨0, 0, 0⟩) (some .crash)) := by
    intro e he
    cases List.mem_singleton.mp he
  exact (publish_crashSafe (fun htorn => by cases htorn) hgate Prod.mk.eta.symm).1

/-! ### Healthy databases -/

/-- Unless an attempt of the gate has seen its `-wal` empty, a publish over the database ends before the rename, and leaves
its main file and its `-wal`. -/
def Guarded (paths : Paths) (c : Circumstances) (buildFn : Py α) (dir : Dir) : Prop :=
  gateVerdict paths c.attempts c.lastAttempt ≠ .ok () →
    ∃ halt dir', buildAndPublish paths c buildFn dir = (.error halt, dir') ∧ swap paths c buildFn dir = (.error halt, dir') ∧
      dir'.served.main = dir.served.main ∧ dir'.served.wal = dir.served.wal

/-- The publish has built its database, an attempt of the gate raises a `sqlite3.Error`, and nothing else stops what comes
next: the removal of the `-wal`, or where there is none the rename. -/
def Condemned (paths : Paths) (c : Circumstances) (buildFn : Py α) (dir : Dir) : Prop :=
  (∃ result dir₁, buildAside paths c buildFn dir = (.ok result, dir₁)) ∧
    (∃ e, gateVerdict paths c.attempts c.lastAttempt = .error (.raised e) ∧ isSqliteError e = true) ∧
    if dir.served.wal.isSome then c.halts (.servedSidecar .wal) = none
    else (dir.served.shm = true → c.halts (.servedSidecar .shm) = none) ∧ c.halts .replace = none

/-- The main file and the `-wal` of the served database are as they were. -/
def SameDatabase (dir dir' : Dir) : Prop := dir'.served.main = dir.served.main ∧ dir'.served.wal = dir.served.wal

theorem sameDatabase_of_served (h : dir'.served = dir.served) : SameDatabase dir dir' := by
  rw [SameDatabase, h]
  exact ⟨rfl, rfl⟩

theorem buildAndPublish_of_error {buildFn : Py α} {halt : Halt} (h : swap paths c buildFn dir = (.error halt, dir')) :
    buildAndPublish paths c buildFn dir = (.error halt, dir') := bind_of_error h

/-- Where the branch for garbage is stopped at its first step, the database stays. -/
theorem stopped_at_once {dir₁ : Dir} (hstop : ¬if dir₁.served.wal.isSome then c.halts (.servedSidecar .wal) = none
      else (dir₁.served.shm = true → c.halts (.servedSidecar .shm) = none) ∧ c.halts .replace = none) :
    ∃ halt dir₂, (removeSidecars c .servedSidecar .served >>= fun _ => stage c .replace Dir.replace) dir₁ =
      (.error halt, dir₂) ∧ SameDatabase dir₁ dir₂ := by
  cases hwal : dir₁.served.wal.isSome with
  | true =>
      rw [hwal, if_pos rfl] at hstop
      obtain ⟨halt, hhalt⟩ := Option.ne_none_iff_exists'.mp hstop
      exact ⟨halt, dir₁, bind_of_error (removeSidecars_halted hwal hhalt), rfl, rfl⟩
  | false =>
      rw [hwal, if_neg Bool.false_ne_true] at hstop
      have hfirst : removeIfExists c (.servedSidecar .wal) .served .wal dir₁ = (.ok (), dir₁) := removeIfExists_absent hwal
      have hreplace : ∀ {dir₂ : Dir}, c.halts .replace ≠ none → SameDatabase dir₁ dir₂ →
          ∃ halt dir', stage c .replace Dir.replace dir₂ = (.error halt, dir') ∧ SameDatabase dir₁ dir' := by
        intro dir₂ hne hsame
        obtain ⟨halt, hhalt⟩ := Option.ne_none_iff_exists'.mp hne
        exact ⟨halt, dir₂, by rw [stage, hhalt], hsame⟩
      cases hshm : dir₁.served.shm with
      | false =>
          have hsecond : removeIfExists c (.servedSidecar .shm) .served .shm dir₁ = (.ok (), dir₁) :=
            removeIfExists_absent hshm
          have hremove : removeSidecars c .servedSidecar .served dir₁ = (.ok (), dir₁) := by
            rw [removeSidecars, bind_of_ok hfirst, hsecond]
          rw [bind_of_ok hremove]
          exact hreplace (fun hnone => hstop ⟨fun h => absurd (hshm.symm.trans h) Bool.false_ne_true, hnone⟩) ⟨rfl, rfl⟩
      | true =>
          have hhas : (dir₁.files .served).has .shm = true := hshm
          cases hhalt : c.halts (.servedSidecar .shm) with
          | some halt =>
              have hremove : removeSidecars c .servedSidecar .served dir₁ = (.error halt, dir₁) := by
                rw [removeSidecars, bind_of_ok hfirst, removeIfExists_halted hhas hhalt]
              exact ⟨halt, dir₁, bind_of_error hremove, rfl, rfl⟩
          | none =>
              have hremove : removeSidecars c .servedSidecar .served dir₁ = (.ok (), dir₁.remove .shm .served) := by
                rw [removeSidecars, bind_of_ok hfirst, removeIfExists_removed hhas hhalt]
              rw [bind_of_ok hremove]
              exact hreplace (fun hnone => hstop ⟨fun _ => hhalt, hnone⟩) ⟨rfl, rfl⟩

/-- Where it is not, the `-wal` is gone, or the rename is reached. -/
theorem gone_or_replaced {dir₁ : Dir} (hgoes : if dir₁.served.wal.isSome then c.halts (.servedSidecar .wal) = none
      else (dir₁.served.shm = true → c.halts (.servedSidecar .shm) = none) ∧ c.halts .replace = none) {halt : Halt}
    {dir₂ : Dir} (h : (removeSidecars c .servedSidecar .served >>= fun _ => stage c .replace Dir.replace) dir₁ =
      (.error halt, dir₂)) : dir₁.served.wal.isSome = true ∧ dir₂.served.wal = none := by
  cases hwal : dir₁.served.wal.isSome with
  | true =>
      rw [hwal, if_pos rfl] at hgoes
      have hfirst : removeIfExists c (.servedSidecar .wal) .served .wal dir₁ = (.ok (), dir₁.remove .wal .served) :=
        removeIfExists_removed hwal hgoes
      refine ⟨rfl, ?_⟩
      rcases bind_eq_error h with hremove | ⟨_, dir₃, hremove, hreplace⟩
      · rw [removeSidecars, bind_of_ok hfirst] at hremove
        exact (removeIfExists_served _ (by decide) hremove).2.2.2.2 rfl
      · rw [removeSidecars, bind_of_ok hfirst] at hremove
        rw [stage_error hreplace]
        exact (removeIfExists_served _ (by decide) hremove).2.2.2.2 rfl
  | false =>
      rw [hwal, if_neg Bool.false_ne_true] at hgoes
      have hfirst : removeIfExists c (.servedSidecar .wal) .served .wal dir₁ = (.ok (), dir₁) := removeIfExists_absent hwal
      have hsecond : ∃ dir₃, removeIfExists c (.servedSidecar .shm) .served .shm dir₁ = (.ok (), dir₃) := by
        cases hshm : dir₁.served.shm with
        | false => exact ⟨_, removeIfExists_absent hshm⟩
        | true => exact ⟨_, removeIfExists_removed hshm (hgoes.1 hshm)⟩
      obtain ⟨dir₃, hsecond⟩ := hsecond
      have hremove : removeSidecars c .servedSidecar .served dir₁ = (.ok (), dir₃) := by
        rw [removeSidecars, bind_of_ok hfirst, hsecond]
      rw [bind_of_ok hremove, stage, hgoes.2] at h
      cases h

/-- **A healthy database is guarded exactly if it is not condemned.** -/
theorem guarded_iff {buildFn : Py α} {generation : ℕ} {content : Db} (hmain : dir.served.main = some (.db generation content)) :
    Guarded paths c buildFn dir ↔ ¬Condemned paths c buildFn dir := by
  have hkeeps : KeepsServed (buildAside paths c buildFn) := keepsServed_buildAside buildFn
  have hserved := hkeeps.served dir
  constructor
  · rintro hguarded ⟨⟨result, dir₁, hbuild⟩, ⟨e, hverdict, hsqlite⟩, hgoes⟩
    obtain ⟨halt, dir', _, hswap, _, hwal⟩ := hguarded (by rw [hverdict]; exact fun h => by cases h)
    rw [hbuild] at hserved
    rw [← hserved] at hmain hgoes hwal
    rw [swap, bind_of_ok hbuild] at hswap
    have hfirst : (removeSidecars c .servedSidecar .served >>= fun _ => stage c .replace Dir.replace) dir₁ =
        (.error halt, dir') := by
      rcases bind_eq_error hswap with hclear | ⟨_, dir₂, hclear, hrest⟩
      · rw [clearServed_sqliteError hmain hverdict hsqlite] at hclear
        exact bind_of_error hclear
      · rw [clearServed_sqliteError hmain hverdict hsqlite] at hclear
        rw [bind_of_ok hclear]
        rcases bind_eq_error hrest with hreplace | ⟨_, dir₃, _, hpure⟩
        · exact hreplace
        · cases hpure
    obtain ⟨hsome, hnone⟩ := gone_or_replaced hgoes hfirst
    rw [← hwal, hnone] at hsome
    cases hsome
  · intro hspared hverdict
    have hstops : ∃ halt dir', swap paths c buildFn dir = (.error halt, dir') ∧ SameDatabase dir dir' := by
      rcases hbuild : buildAside paths c buildFn dir with ⟨out, dir₁⟩
      rw [hbuild] at hserved
      have hsame : ∀ {dir₂ : Dir}, SameDatabase dir₁ dir₂ → SameDatabase dir dir₂ := by
        intro dir₂ h
        rw [SameDatabase, hserved] at h
        exact h
      cases out with
      | error halt => exact ⟨halt, dir₁, bind_of_error hbuild, sameDatabase_of_served hserved⟩
      | ok result =>
          rw [swap, bind_of_ok hbuild]
          have hmain₁ : dir₁.served.main = some (.db generation content) := by rw [hserved, hmain]
          cases hgate : gateVerdict paths c.attempts c.lastAttempt with
          | ok u => exact absurd hgate hverdict
          | error halt =>
              have hclear := clearServed_failed hmain₁ hgate
              cases halt with
              | crash => exact ⟨.crash, dir₁, bind_of_error hclear, hsame ⟨rfl, rfl⟩⟩
              | raised e =>
                  rcases hfailed : gateFailed c e dir₁ with ⟨out, dir₂⟩
                  have hclear' : clearServed paths c dir₁ = (out, dir₂) := hclear.trans hfailed
                  rcases gateFailed_cases hfailed with ⟨⟨halt, hout⟩, hkept⟩ | ⟨hsqlite, hremove⟩
                  · rw [hout] at hclear'
                    exact ⟨halt, dir₂, bind_of_error hclear', hsame (sameDatabase_of_served hkept)⟩
                  · have hstop := @stopped_at_once c dir₁ fun hgoes =>
                      hspared ⟨⟨result, dir₁, hbuild⟩, ⟨e, hgate, hsqlite⟩, hserved ▸ hgoes⟩
                    obtain ⟨halt, dir₃, hstop, hdatabase⟩ := hstop
                    refine ⟨halt, dir₃, ?_, hsame hdatabase⟩
                    rw [bind_apply, hclear']
                    rw [bind_apply, hremove] at hstop
                    cases out with
                    | error halt' =>
                        cases hstop
                        rfl
                    | ok u => exact bind_of_error hstop
    obtain ⟨halt, dir', hswap, hdatabase⟩ := hstops
    exact ⟨halt, dir', buildAndPublish_of_error hswap, hswap, hdatabase⟩

/-- A reader holds the database, and the gate gives up. -/
def busyReader : Circumstances := circumstancesOf (.ok ⟨1, 3, 0⟩) none

theorem guarded_iff_busyReader : Guarded catalogPaths busyReader emptyBuild servedDir := by
  refine (guarded_iff rfl).mpr ?_
  rintro ⟨_, ⟨e, hverdict, hsqlite⟩, _⟩
  have hbusy : gateVerdict catalogPaths busyReader.attempts busyReader.lastAttempt =
      .error (.raised (publishBusyError catalogPaths ⟨1, 3, 0⟩)) := rfl
  rw [hbusy] at hverdict
  cases hverdict
  rw [isSqliteError_publishBusyError] at hsqlite
  cases hsqlite

/-- Another connection holds the database for a moment. -/
def locked : Circumstances := circumstancesOf (.error (.raised (.operationalError (py "database is locked")))) none

theorem locked_not_guarded : (buildAndPublish catalogPaths locked emptyBuild servedDir).1 = .ok () ∧
    (buildAndPublish catalogPaths locked emptyBuild servedDir).2.served.wal.isNone = true ∧
    ¬Guarded catalogPaths locked emptyBuild servedDir := by
  have hout : (buildAndPublish catalogPaths locked emptyBuild servedDir).1 = .ok () := by decide +kernel
  refine ⟨hout, by decide +kernel, fun hguarded => ?_⟩
  obtain ⟨halt, dir', hrun, _⟩ := hguarded fun hok => by cases hok
  rw [hrun] at hout
  cases hout

end McapCatalog.Publish
