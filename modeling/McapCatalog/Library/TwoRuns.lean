import McapCatalog.Library.SurvivingState

/-!
# Two runs side by side

Two computations whose states differ only in what does not matter: a relation on the states says what may differ, and the
computations exit the same way, into related states.

* `Alike R m m'` — from related states, the same outcome and related states; one rule per construct of `Comp`.

Nothing here names a particular program.
-/

namespace McapCatalog.SurvivingState

open Comp

variable {σ ε α β : Type} {R : σ → σ → Prop}

/-- From related states, `m` and `m'` exit the same way, into related states. -/
def Alike (R : σ → σ → Prop) (m m' : Comp σ ε α) : Prop := ∀ s s', R s s' → (m s).1 = (m' s').1 ∧ R (m s).2 (m' s').2

theorem alike_pure (a : α) : Alike R (pure a : Comp σ ε α) (pure a) := fun _ _ h => ⟨rfl, h⟩

theorem alike_raise (e : ε) : Alike R (raise e : Comp σ ε α) (raise e) := fun _ _ h => ⟨rfl, h⟩

theorem alike_change {f f' : σ → σ} (h : ∀ s s', R s s' → R (f s) (f' s')) :
    Alike R (change f : Comp σ ε Unit) (change f') := fun s s' hs => ⟨rfl, h s s' hs⟩

/-- **Sequencing.** -/
theorem Alike.bind {m m' : Comp σ ε α} {f f' : α → Comp σ ε β} (hm : Alike R m m') (hf : ∀ a, Alike R (f a) (f' a)) :
    Alike R (m >>= f) (m' >>= f') := by
  intro s s' hs
  obtain ⟨hexit, hleft⟩ := hm s s' hs
  rw [bind_apply, bind_apply]
  rcases hms : m s with ⟨r, t⟩
  rcases hms' : m' s' with ⟨r', t'⟩
  rw [hms, hms'] at hexit hleft
  cases hexit
  cases r with
  | ok a => exact hf a t t' hleft
  | error e => exact ⟨rfl, hleft⟩

theorem Alike.attempt {m m' : Comp σ ε α} (hm : Alike R m m') : Alike R (Comp.attempt m) (Comp.attempt m') := by
  intro s s' hs
  obtain ⟨hexit, hleft⟩ := hm s s' hs
  rw [attempt_apply, attempt_apply]
  exact ⟨congrArg Except.ok hexit, hleft⟩

/-- A look at the state: what follows may depend on it as far as the relation says. -/
theorem alike_look {f f' : σ → Comp σ ε α} (h : ∀ s s', R s s' → Alike R (f s) (f' s')) :
    Alike R (look >>= f) (look >>= f') := by
  intro s s' hs
  rw [bind_of_ok (look_apply s), bind_of_ok (look_apply s')]
  exact h s s' hs s s' hs

theorem Alike.each {γ : Type} {f f' : γ → Comp σ ε Unit} (h : ∀ c, Alike R (f c) (f' c)) :
    ∀ cs : List γ, Alike R (Comp.each f cs) (Comp.each f' cs)
  | [] => alike_pure ()
  | c :: cs => (h c).bind fun _ => Alike.each h cs

theorem Alike.foldEach {γ : Type} {f f' : β → γ → Comp σ ε β} (h : ∀ b c, Alike R (f b c) (f' b c)) :
    ∀ (cs : List γ) (b : β), Alike R (Comp.foldEach f b cs) (Comp.foldEach f' b cs)
  | [], b => alike_pure b
  | c :: cs, b => (h b c).bind fun b' => Alike.foldEach h cs b'

end McapCatalog.SurvivingState
