import McapCatalog.PublishCases
import McapCatalog.SidecarWindow

/-!
# A publish as a run of its scene

The last steps of `build_and_publish` are modelled twice: on what the files contain, with everything that can go wrong, and on
their inodes, with readers that move in between.  Where only the publisher moves, the two take the same steps.

* `Pictured` — a scene has a file at the served path where a directory has one;
* `ByPublisher` — moves of the publisher only;
* `Performs` — a call on the directory does a list of tasks, or gives up on the way;
* `clearServed_follows` — what is done before the rename, whatever is found at the served path;
* `publish_alone` — **from the served path on, a publish does its program, task by task, or gives up**, and it has renamed
  in the one model exactly if it has in the other;
* `publish_run` — so it is a run of the scene.
-/

namespace McapCatalog.SidecarWindow

open McapCatalog.PyError McapCatalog.Connection McapCatalog.CatalogDb McapCatalog.Publish
open McapCatalog.SurvivingState McapCatalog.SurvivingState.Comp
open Relation

variable {α : Type} {paths : Paths} {c : Circumstances} {dir dir' : Dir} {s s' : Scene}

/-- The scene has a file at the served path where the directory has one. -/
structure Pictured (dir : Dir) (s : Scene) : Prop where
  main : s.main.isSome = dir.served.main.isSome
  wal : (s.sidecar .wal).isSome = dir.served.wal.isSome
  shm : (s.sidecar .shm).isSome = dir.served.shm

theorem Pictured.congr (h : Pictured dir s) (hserved : dir'.served = dir.served) (hmain : s'.main = s.main)
    (hsidecar : s'.sidecar = s.sidecar) : Pictured dir' s' := by
  refine ⟨?_, ?_, ?_⟩
  · rw [hmain, hserved]
    exact h.main
  · rw [hsidecar, hserved]
    exact h.wal
  · rw [hsidecar, hserved]
    exact h.shm

/-- The publisher makes the move. -/
def Event.OfPublisher : Event → Prop
  | .publish _ | .giveUp => True
  | _ => False

/-- Moves of the publisher, and of nobody else. -/
def ByPublisher : Scene → Scene → Prop := ReflTransGen fun s s' => ∃ e : Event, e.OfPublisher ∧ step s e = some s'

theorem ByPublisher.built (h : ByPublisher s s') : s'.built = s.built := by
  induction h with
  | refl => rfl
  | tail _ hstep ih =>
      obtain ⟨e, he, hstep⟩ := hstep
      rw [← ih]
      cases e with
      | publish effect =>
          rw [SidecarWindow.step, publishStep] at hstep
          split at hstep
          · cases hstep
          · cases hstep
            cases effect <;> rfl
          all_goals
            cases hstep
            rfl
      | giveUp =>
          cases hstep
          rfl
      | openMain reader | attach reader sidecar | close reader => exact he.elim

/-- The moves as a run. -/
theorem ByPublisher.run {found : Found} {moves : List (Scene × Event)} (run : Run found moves s) (h : ByPublisher s s') :
    ∃ more, Run found (moves ++ more) s' ∧ ∀ m ∈ more, m.2.OfPublisher := by
  induction h with
  | refl => exact ⟨[], by rwa [List.append_nil], fun m hm => absurd hm List.not_mem_nil⟩
  | @tail s₁ s₂ _ hstep ih =>
      obtain ⟨more, hrun, hmore⟩ := ih
      obtain ⟨e, he, hstep⟩ := hstep
      refine ⟨more ++ [(s₁, e)], by rw [← List.append_assoc]; exact hrun.step e hstep, fun m hm => ?_⟩
      cases List.mem_append.mp hm with
      | inl hold => exact hmore m hold
      | inr hnew => exact List.mem_singleton.mp hnew ▸ he

theorem alone_publish (effect : GateEffect) (h : publishStep s effect = some s') : ByPublisher s s' :=
  .single ⟨.publish effect, trivial, h⟩

/-- Where a call on the directory has led in the scene: to the tasks after its own, or to none. -/
structure Arrives (before : Scene) (dir : Dir) (rest : List Task) (out : Except Halt Unit × Dir) (s : Scene) : Prop where
  pictured : Pictured out.2 s
  main : s.main = before.main
  returned : out.1 = .ok () → s.todo = rest ∧ out.2.temp = dir.temp
  raised : ∀ halt, out.1 = .error halt → s.todo = []

/-- The call does the tasks, one after the other, or gives up. -/
def Performs (m : Publishing Unit) (tasks : List Task) : Prop :=
  ∀ dir s rest, Pictured dir s → s.todo = tasks ++ rest → ∃ s', ByPublisher s s' ∧ Arrives s dir rest (m dir) s'

/-- An end that leaves the served path alone. -/
theorem arrives_of_error {halt : Halt} (h : Pictured dir s) (hserved : dir'.served = dir.served) (rest : List Task) :
    ∃ s', ByPublisher s s' ∧ Arrives s dir rest (.error halt, dir') s' :=
  ⟨{ s with todo := [] }, .single ⟨.giveUp, trivial, rfl⟩, h.congr hserved rfl rfl, rfl, fun hout => (by cases hout),
    fun _ _ => rfl⟩

theorem Performs.bind {m m' : Publishing Unit} {tasks tasks' : List Task} (hm : Performs m tasks) (hm' : Performs m' tasks') :
    Performs (m >>= fun _ => m') (tasks ++ tasks') := by
  intro dir s rest hs htodo
  rw [List.append_assoc] at htodo
  obtain ⟨s₁, halone, harrives⟩ := hm dir s _ hs htodo
  rcases hrun : m dir with ⟨out₁, dir₁⟩
  rw [hrun] at harrives
  cases out₁ with
  | error halt =>
      rw [bind_of_error hrun]
      exact ⟨s₁, halone, harrives.pictured, harrives.main, fun hout => (by cases hout),
        fun _ _ => harrives.raised halt rfl⟩
  | ok u =>
      rw [bind_of_ok hrun]
      obtain ⟨htodo₁, htemp⟩ := harrives.returned rfl
      obtain ⟨s₂, halone', harrives'⟩ := hm' dir₁ s₁ rest harrives.pictured htodo₁
      refine ⟨s₂, halone.trans halone', harrives'.pictured, harrives'.main.trans harrives.main, fun hout => ?_,
        harrives'.raised⟩
      obtain ⟨htodo₂, htemp'⟩ := harrives'.returned hout
      exact ⟨htodo₂, htemp'.trans htemp⟩

/-! ### The removals -/

/-- The sidecar among the files of a database. -/
def Sidecar.part : Sidecar → Part
  | .wal => .wal
  | .shm => .shm

theorem Pictured.sidecar (h : Pictured dir s) (sidecar : Sidecar) :
    (s.sidecar sidecar).isSome = (dir.files .served).has sidecar.part := by
  cases sidecar with
  | wal => exact h.wal
  | shm => exact h.shm

theorem Pictured.removed (h : Pictured dir s) (sidecar : Sidecar) (todo : List Task) :
    Pictured (dir.remove sidecar.part .served) { s with sidecar := Function.update s.sidecar sidecar none, todo := todo } := by
  cases sidecar with
  | wal => exact ⟨h.main, rfl, h.shm⟩
  | shm => exact ⟨h.main, h.wal, rfl⟩

theorem follows_removeIfExists (st : Stage) (sidecar : Sidecar) :
    Performs (removeIfExists c st .served sidecar.part) [.look sidecar] := by
  intro dir s rest hs htodo
  have hlook : ByPublisher s { s with todo := if (s.sidecar sidecar).isSome then .unlink sidecar :: rest else rest } :=
    alone_publish .kept (by rw [publishStep, htodo]; rfl)
  rw [hs.sidecar] at hlook
  cases hhas : (dir.files .served).has sidecar.part with
  | false =>
      rw [hhas, if_neg Bool.false_ne_true] at hlook
      rw [removeIfExists_absent hhas]
      exact ⟨_, hlook, hs.congr rfl rfl rfl, rfl, fun _ => ⟨rfl, rfl⟩, fun _ hout => by cases hout⟩
  | true =>
      cases hhalt : c.halts st with
      | some halt =>
          rw [removeIfExists_halted hhas hhalt]
          exact arrives_of_error hs rfl rest
      | none =>
          rw [hhas, if_pos rfl] at hlook
          rw [removeIfExists_removed hhas hhalt]
          have hthere : (s.sidecar sidecar).isSome = true := (hs.sidecar sidecar).trans hhas
          have hunlink : ByPublisher { s with todo := .unlink sidecar :: rest } { s with
              sidecar := Function.update s.sidecar sidecar none
              todo := rest } := by
            refine alone_publish .kept ?_
            rw [publishStep]
            dsimp only
            rw [hthere]
            rfl
          refine ⟨_, hlook.trans hunlink, hs.removed sidecar rest, rfl, fun _ => ⟨rfl, ?_⟩, fun _ hout => (by cases hout)⟩
          cases sidecar <;> rfl

theorem follows_removeSidecars (st : Part → Stage) : Performs (removeSidecars c st .served) removals :=
  (follows_removeIfExists (st .wal) .wal).bind (follows_removeIfExists (st .shm) .shm)

/-! ### The gate -/

/-- The tasks before the rename. -/
def beforeRename : Found → List Task
  | .verified => [.gate]
  | .garbage => .gate :: removals
  | .absent => removals

theorem program_eq (found : Found) : program found = beforeRename found ++ .replace :: removals := by
  cases found <;> rfl

/-- The gate leaves the sidecars as they are, or makes those that are missing. -/
theorem Pictured.checkpointed (h : Pictured dir s) : ∃ effect, ∀ todo,
    Pictured { dir with served := dir.served.checkpointed } { s.gated effect with todo := todo } ∧
      (s.gated effect).main = s.main := by
  by_cases hcontent : ∃ db, dir.served.view = .content db
  · obtain ⟨db, hview⟩ := hcontent
    obtain ⟨generation, hfiles⟩ := checkpointed_db hview
    have hmain : dir.served.main.isSome = true := by
      cases hmain : dir.served.main with
      | none =>
          rw [Files.view, hmain] at hview
          cases hview
      | some main => rfl
    refine ⟨.made, fun todo => ⟨⟨?_, ?_, ?_⟩, rfl⟩⟩
    · rw [hfiles]
      exact h.main.trans hmain
    · rw [hfiles]
      rfl
    · rw [hfiles]
      rfl
  · have hsame : dir.served.checkpointed = dir.served := by
      rw [Files.checkpointed]
      split
      · rename_i hview
        exact absurd ⟨_, hview⟩ hcontent
      · rfl
    exact ⟨.kept, fun todo => ⟨h.congr hsame rfl rfl, rfl⟩⟩

/-- **The served path is made ready** by the tasks before the rename, whichever they turn out to be. -/
theorem clearServed_follows (paths : Paths) (c : Circumstances) (dir : Dir) :
    ∃ found, (found = .absent ↔ dir.served.main = none) ∧ ∀ s rest, Pictured dir s → s.todo = beforeRename found ++ rest →
      ∃ s', ByPublisher s s' ∧ Arrives s dir rest (clearServed paths c dir) s' := by
  rw [clearServed, bind_of_ok (look_apply dir)]
  cases hmain : dir.served.main with
  | none =>
      refine ⟨.absent, iff_of_true rfl rfl, fun s rest hs htodo => ?_⟩
      exact follows_removeSidecars _ dir s rest hs htodo
  | some main =>
      rw [if_pos Option.isSome_some]
      rcases hhandled : handle (gateOldServedDb paths c) (gateFailed c) dir with ⟨out, dir'⟩
      have hsome : ∀ {found : Found}, found ≠ .absent → (found = .absent ↔ some main = none) :=
        fun hne => ⟨fun heq => absurd heq hne, fun heq => by cases heq⟩
      rcases handle_cases hhandled with hgate | ⟨e, dir₁, hgate, hfailed⟩
      · refine ⟨.verified, hsome (by decide), fun s rest hs htodo => ?_⟩
        rcases gateOldServedDb_cases hmain hgate with ⟨rfl, _, rfl⟩ | ⟨rfl, halt, rfl, _⟩
        · obtain ⟨effect, hpictured⟩ := hs.checkpointed
          have hstep : publishStep s effect = some { s.gated effect with todo := rest } := by
            rw [publishStep, htodo]
            rfl
          exact ⟨_, alone_publish effect hstep, (hpictured rest).1, (hpictured rest).2, fun _ => ⟨rfl, rfl⟩,
            fun _ hout => by cases hout⟩
        · exact arrives_of_error hs rfl rest
      · rcases gateOldServedDb_cases hmain hgate with ⟨hout, _⟩ | ⟨rfl, _, _, _⟩
        · cases hout
        · rcases gateFailed_cases hfailed with ⟨⟨halt, rfl⟩, hserved⟩ | ⟨_, hremove⟩
          · exact ⟨.verified, hsome (by decide), fun s rest hs _ => arrives_of_error hs hserved rest⟩
          · refine ⟨.garbage, hsome (by decide), fun s rest hs htodo => ?_⟩
            have hstep : publishStep s .kept = some { s with todo := removals ++ rest } := by
              rw [publishStep, htodo]
              rfl
            have hfollows : Performs (removeSidecars c .servedSidecar .served) removals := follows_removeSidecars _
            obtain ⟨s', halone, harrives⟩ := hfollows dir₁ { s with todo := removals ++ rest } rest (hs.congr rfl rfl rfl) rfl
            rw [hremove] at harrives
            exact ⟨s', (alone_publish .kept hstep).trans halone, harrives.pictured, harrives.main, harrives.returned,
              harrives.raised⟩

/-! ### The publish -/

/-- Up to the rename, and with it: the publish has given up, or the new main file is at the path and the removals are left. -/
theorem swap_alone {buildFn : Py α} {result : α} {dir₁ : Dir}
    (hbuild : buildAside paths c buildFn dir = (.ok result, dir₁)) :
    ∃ found, (found = .absent ↔ dir.served.main = none) ∧ ∀ s, Pictured dir s → Starts found s →
      ∃ s', ByPublisher s s' ∧ Pictured (swap paths c buildFn dir).2 s' ∧
        ((∃ halt, (swap paths c buildFn dir).1 = .error halt) ∧ s'.main = s.main ∧ s'.todo = [] ∨
          (swap paths c buildFn dir).1 = .ok result ∧ s'.main = some s'.built ∧ s'.todo = removals) := by
  have hserved : dir₁.served = dir.served := by
    have hkeeps : KeepsServed (buildAside paths c buildFn) := keepsServed_buildAside buildFn
    have hkept := hkeeps.served dir
    rwa [hbuild] at hkept
  obtain ⟨_, _, generation, _, _, htemp⟩ := buildAside_ok hbuild
  obtain ⟨found, habsent, hfollows⟩ := clearServed_follows paths c dir₁
  rw [hserved] at habsent
  refine ⟨found, habsent, fun s hs hstarts => ?_⟩
  obtain ⟨s₂, halone, harrives⟩ := hfollows s (.replace :: removals) (hs.congr hserved rfl rfl)
    (hstarts.todo.trans (program_eq found))
  rcases hclear : clearServed paths c dir₁ with ⟨out₂, dir₂⟩
  rw [hclear] at harrives
  rw [swap, bind_of_ok hbuild]
  cases out₂ with
  | error halt =>
      rw [bind_of_error hclear]
      exact ⟨s₂, halone, harrives.pictured, Or.inl ⟨⟨halt, rfl⟩, harrives.main, harrives.raised halt rfl⟩⟩
  | ok u =>
      rw [bind_of_ok hclear]
      obtain ⟨htodo, hsame⟩ := harrives.returned rfl
      cases hhalt : c.halts .replace with
      | some halt =>
          have hstage : stage c .replace Dir.replace dir₂ = (.error halt, dir₂) := by rw [stage, hhalt]
          rw [bind_of_error hstage]
          exact ⟨{ s₂ with todo := [] }, halone.tail ⟨.giveUp, trivial, rfl⟩, harrives.pictured.congr rfl rfl rfl,
            Or.inl ⟨⟨halt, rfl⟩, harrives.main, rfl⟩⟩
      | none =>
          have hstage : stage c .replace Dir.replace dir₂ = (.ok (), dir₂.replace) := by rw [stage, hhalt]
          rw [bind_of_ok hstage]
          refine ⟨{ s₂ with main := some s₂.built, todo := removals },
            halone.trans (alone_publish .kept (by rw [publishStep, htodo])),
            ⟨?_, harrives.pictured.wal, harrives.pictured.shm⟩, Or.inr ⟨rfl, rfl, rfl⟩⟩
          show true = dir₂.temp.main.isSome
          rw [hsame, htemp]
          rfl

/-- **From the served path on, a publish does its program or gives up**, and the main file at the path is the new one exactly
if the publish has come past its rename. -/
theorem publish_alone {buildFn : Py α} {result : α} {dir₁ : Dir} {out : Except Halt α}
    (hbuild : buildAside paths c buildFn dir = (.ok result, dir₁)) (hrun : buildAndPublish paths c buildFn dir = (out, dir')) :
    ∃ found, (found = .absent ↔ dir.served.main = none) ∧ ∀ s, Pictured dir s → Starts found s →
      ∃ s', ByPublisher s s' ∧ Pictured dir' s' ∧ s'.todo = [] ∧
        (s'.main = some s'.built ↔ (swap paths c buildFn dir).1 = .ok result) := by
  obtain ⟨found, habsent, hswap⟩ := swap_alone hbuild
  refine ⟨found, habsent, fun s hs hstarts => ?_⟩
  obtain ⟨s₁, halone, hpictured, hends⟩ := hswap s hs hstarts
  rcases buildAndPublish_removed hrun with ⟨halt, _, hhalted⟩ | ⟨result', dir₂, out₂, hswapped, hremove⟩
  · rw [hhalted] at hpictured hends
    rw [hhalted]
    rcases hends with ⟨_, hmain, htodo⟩ | ⟨hout, _⟩
    · refine ⟨s₁, halone, hpictured, htodo, iff_of_false ?_ fun hout => (by cases hout)⟩
      rw [halone.built, hmain]
      exact hstarts.main
    · cases hout
  · rw [hswapped] at hpictured hends
    rw [hswapped]
    rcases hends with ⟨⟨halt, hout⟩, _⟩ | ⟨hout, hmain, htodo⟩
    · cases hout
    · have hfollows : Performs (removeSidecars c .staleSidecar .served) removals := follows_removeSidecars _
      obtain ⟨s₂, halone₂, harrives⟩ := hfollows dir₂ s₁ [] hpictured (htodo.trans (List.append_nil _).symm)
      rw [hremove] at harrives
      have hdone : s₂.todo = [] := by
        cases out₂ with
        | ok u => exact (harrives.returned rfl).1
        | error halt => exact harrives.raised halt rfl
      refine ⟨s₂, halone.trans halone₂, harrives.pictured, hdone, iff_of_true ?_ hout⟩
      rw [halone₂.built, harrives.main]
      exact hmain

/-- A scene of the directory without readers. -/
def sceneOf (dir : Dir) (found : Found) : Scene where
  main := if dir.served.main.isSome then some 0 else none
  sidecar
    | .wal => if dir.served.wal.isSome then some 1 else none
    | .shm => if dir.served.shm then some 2 else none
  built := 3
  fresh := 4
  readers _ := none
  todo := program found

theorem pictured_sceneOf (dir : Dir) (found : Found) : Pictured dir (sceneOf dir found) := by
  have hsome : ∀ (b : Bool) (n : ℕ), (if b then some n else none).isSome = b := fun b n => by cases b <;> rfl
  exact ⟨hsome _ _, hsome _ _, hsome _ _⟩

theorem starts_sceneOf {found : Found} (habsent : found = .absent ↔ dir.served.main = none) :
    Starts found (sceneOf dir found) where
  todo := rfl
  absent := by
    rw [habsent, sceneOf]
    cases dir.served.main <;> simp
  main := by
    rw [sceneOf]
    cases dir.served.main <;> simp
  readers _ _ hreader := by cases hreader

/-- **A publish whose build goes through is a run of the scene** in which nobody else moves. -/
theorem publish_run {buildFn : Py α} {result : α} {dir₁ : Dir} {out : Except Halt α}
    (hbuild : buildAside paths c buildFn dir = (.ok result, dir₁)) (hrun : buildAndPublish paths c buildFn dir = (out, dir')) :
    ∃ found moves s', Run found moves s' ∧ (∀ m ∈ moves, m.2.OfPublisher) ∧ Pictured dir' s' ∧ s'.todo = [] ∧
      (s'.main = some s'.built ↔ (swap paths c buildFn dir).1 = .ok result) := by
  obtain ⟨found, habsent, hpublish⟩ := publish_alone hbuild hrun
  have hstarts := starts_sceneOf habsent
  obtain ⟨s', halone, hends⟩ := hpublish _ (pictured_sceneOf dir found) hstarts
  obtain ⟨moves, hmoves, hpublisher⟩ := halone.run (.start hstarts)
  exact ⟨found, moves, s', hmoves, hpublisher, hends⟩

end McapCatalog.SidecarWindow
