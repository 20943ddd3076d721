import McapCatalog.Library.SurvivingState

/-!
# Clean-up, and runs that are cut

A program whose calls can each be the last one.  What ends it is an exception, which the clean-up of a `try`/`finally` sees, or
the end of the whole process, which runs nothing any more.

* `step` — one call: the run ends there, or it has its effect;
* `ensuring` — `try`/`finally`, with the ends that skip it;
* `Triple.step`, `Triple.ensuring` — one rule for each;
* `Within.triple` — what a relation between the states before and after a call keeps.
-/

namespace McapCatalog.SurvivingState

open Comp

variable {σ ε α : Type}

namespace Comp

/-- One call: the run ends there, or the call has its effect. -/
def step (halt : Option ε) (effect : σ → σ) : Comp σ ε Unit := fun s =>
  match halt with
  | some e => (.error e, s)
  | none => (.ok (), effect s)

/-- `try`/`finally`: a fatal end skips the clean-up, and what the clean-up raises replaces what was raised before. -/
def ensuring (fatal : ε → Bool) (m : Comp σ ε α) (cleanUp : Comp σ ε Unit) : Comp σ ε α := fun s =>
  match m s with
  | (.ok a, s') => (cleanUp >>= fun _ => pure a) s'
  | (.error e, s') => if fatal e then (.error e, s') else (cleanUp >>= fun _ => raise e) s'

theorem step_of_some {e : ε} (effect : σ → σ) (s : σ) : step (some e) effect s = (.error e, s) := rfl

theorem step_of_none (effect : σ → σ) (s : σ) : step (none : Option ε) effect s = (.ok (), effect s) := rfl

end Comp

section Rules

variable {P : σ → Prop} {Q Q' : α → σ → Prop} {E E' : ε → σ → Prop}

/-- **A call.** -/
theorem Triple.step {I : σ → Prop} {halt : Option ε} {effect : σ → σ} (hok : ∀ s, P s → halt = none → I (effect s))
    (hhalt : ∀ s e, P s → halt = some e → E e s) : Triple P (Comp.step halt effect) (fun _ => I) E := by
  intro s hs
  cases h : halt with
  | none =>
      rw [step_of_none]
      exact hok s hs h
  | some e =>
      rw [step_of_some]
      exact hhalt s e hs h

/-- **`try`/`finally`**: the clean-up runs after each end that is not fatal. -/
theorem Triple.ensuring {fatal : ε → Bool} {m : Comp σ ε α} {cleanUp : Comp σ ε Unit} (hm : Triple P m Q E)
    (hok : ∀ a, Triple (Q a) cleanUp (fun _ => Q' a) E')
    (hraised : ∀ e, fatal e = false → Triple (E e) cleanUp (fun _ => E' e) E')
    (hfatal : ∀ e s, fatal e = true → E e s → E' e s) : Triple P (Comp.ensuring fatal m cleanUp) Q' E' := by
  intro s hs
  have hexit := hm s hs
  rw [Comp.ensuring]
  rcases hrun : m s with ⟨r, s'⟩
  rw [hrun] at hexit
  cases r with
  | ok a => exact ((hok a).bind fun _ => triple_pure) s' hexit
  | error e =>
      show Exit Q' E' (if fatal e then _ else _)
      split
      · rename_i h
        exact hfatal e s' h hexit
      · rename_i h
        have hraise : Triple (E' e) (raise e : Comp σ ε α) Q' E' := fun _ he => he
        exact ((hraised e (Bool.eq_false_iff.mpr h)).bind fun _ => hraise) s' hexit

/-- A call that relates the states before and after it keeps what the relation respects, in both exits. -/
theorem Within.triple {I : σ → Prop} {R : σ → σ → Prop} {m : Comp σ ε α} (h : Within (fun _ => True) R m)
    (hR : ∀ s s', R s s' → I s → I s') : Triple I m (fun _ => I) (fun _ => I) := by
  intro s hs
  have hrelated := hR s _ (h s trivial).2 hs
  rcases hrun : m s with ⟨r, s'⟩
  rw [hrun] at hrelated
  cases r with
  | ok a => exact hrelated
  | error e => exact hrelated

/-- A call whose effect is in a relation. -/
theorem within_step {R : σ → σ → Prop} (hr : ∀ s, R s s) (halt : Option ε) {effect : σ → σ} (h : ∀ s, R s (effect s)) :
    Within (fun _ => True) R (Comp.step halt effect) := by
  intro s _
  cases halt with
  | none => exact ⟨trivial, h s⟩
  | some e => exact ⟨trivial, hr s⟩

end Rules

end McapCatalog.SurvivingState
