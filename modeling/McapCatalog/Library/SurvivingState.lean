import Mathlib.Logic.Relation
import Mathlib.Order.Basic

/-!
# Computations whose state survives an exception

The programs modelled in this project are sequences of effects that may raise at any point.  What an
exception does **not** do is undo the effects before it: a database connection keeps the statements it
has already executed, a cache keeps the entries it has already stored.  So a computation here is a
function from a state to an outcome **and** a state, in both exits.

* `Comp σ ε α` — computations over a state `σ` that return an `α` or raise an `ε`, with the monad
  structure (`bind` skips its continuation after a raise), `raise`, `attempt` and state access;
* `each`, `foldEach` — the two loops over a list, one step per element;
* `Triple P m Q E` — Hoare triples with one postcondition for each exit, and their rules;
* `Within I R m` — the two-state view: a run of `m` from an `I`-state ends, whichever way it exits, in an
  `I`-state related to the first by `R`.  There is one rule per construct, so a property of every effect of a
  program is proved once per effect.
* `After m P`, `Along f C` — what has to hold of what `m` returns and leaves, and before each round of a loop: conditions
  that follow one run of a program; `Leaves I m` — what such a run ends in.

Nothing here names a particular program.
-/

namespace McapCatalog.SurvivingState

/-- A computation over `σ` that returns an `α` or raises an `ε`; the state is kept in both exits. -/
def Comp (σ ε α : Type) : Type := σ → Except ε α × σ

variable {σ ε α β γ : Type}

namespace Comp

/-- Return a value and leave the state alone. -/
def ret (a : α) : Comp σ ε α := fun s => (.ok a, s)

/-- Sequencing: the continuation runs on the state the first part left, unless it raised. -/
def andThen (m : Comp σ ε α) (f : α → Comp σ ε β) : Comp σ ε β := fun s =>
  match m s with
  | (.ok a, s') => f a s'
  | (.error e, s') => (.error e, s')

instance : Monad (Comp σ ε) where
  pure := ret
  bind := andThen

/-- Raise an exception; the state stays as it is. -/
def raise (e : ε) : Comp σ ε α := fun s => (.error e, s)

/-- Run `m` and hand both exits to the caller as a value (`try`/`except` before the handler). -/
def attempt (m : Comp σ ε α) : Comp σ ε (Except ε α) := fun s =>
  match m s with
  | (r, s') => (.ok r, s')

/-- The current state. -/
def look : Comp σ ε σ := fun s => (.ok s, s)

/-- Change the state. -/
def change (f : σ → σ) : Comp σ ε Unit := fun s => (.ok (), f s)

@[simp] theorem pure_apply (a : α) (s : σ) : (pure a : Comp σ ε α) s = (.ok a, s) := rfl

@[simp] theorem raise_apply (e : ε) (s : σ) : (raise e : Comp σ ε α) s = (.error e, s) := rfl

@[simp] theorem look_apply (s : σ) : (look : Comp σ ε σ) s = (.ok s, s) := rfl

@[simp] theorem change_apply (f : σ → σ) (s : σ) : (change f : Comp σ ε Unit) s = (.ok (), f s) := rfl

theorem bind_apply (m : Comp σ ε α) (f : α → Comp σ ε β) (s : σ) :
    (m >>= f) s = match m s with
      | (.ok a, s') => f a s'
      | (.error e, s') => (.error e, s') := rfl

/-- After a normal exit the continuation runs. -/
theorem bind_of_ok {m : Comp σ ε α} {f : α → Comp σ ε β} {s s' : σ} {a : α}
    (h : m s = (.ok a, s')) : (m >>= f) s = f a s' := by
  rw [bind_apply, h]

/-- After a raise the continuation is skipped. -/
theorem bind_of_error {m : Comp σ ε α} {f : α → Comp σ ε β} {s s' : σ} {e : ε}
    (h : m s = (.error e, s')) : (m >>= f) s = (.error e, s') := by
  rw [bind_apply, h]

/-- A sequence that returned went through its middle. -/
theorem bind_eq_ok {m : Comp σ ε α} {f : α → Comp σ ε β} {s s' : σ} {b : β} (h : (m >>= f) s = (.ok b, s')) :
    ∃ a s₁, m s = (.ok a, s₁) ∧ f a s₁ = (.ok b, s') := by
  rw [bind_apply] at h
  rcases hm : m s with ⟨r, s₁⟩
  rw [hm] at h
  cases r with
  | ok a => exact ⟨a, s₁, rfl, h⟩
  | error e => cases h

/-- A sequence that raised did so in one of its halves. -/
theorem bind_eq_error {m : Comp σ ε α} {f : α → Comp σ ε β} {s s' : σ} {e : ε} (h : (m >>= f) s = (.error e, s')) :
    m s = (.error e, s') ∨ ∃ a s₁, m s = (.ok a, s₁) ∧ f a s₁ = (.error e, s') := by
  rw [bind_apply] at h
  rcases hm : m s with ⟨r, s₁⟩
  rw [hm] at h
  cases r with
  | ok a => exact Or.inr ⟨a, s₁, rfl, h⟩
  | error e' =>
      cases h
      exact Or.inl rfl

theorem bind_bind (m : Comp σ ε α) (f : α → Comp σ ε β) (g : β → Comp σ ε γ) :
    ((m >>= f) >>= g) = (m >>= fun a => f a >>= g) := by
  funext s
  rw [bind_apply, bind_apply, bind_apply]
  rcases m s with ⟨r, s'⟩
  cases r <;> rfl

theorem attempt_apply (m : Comp σ ε α) (s : σ) : attempt m s = (.ok (m s).1, (m s).2) := rfl

/-! ### Loops -/

/-- `for a in as: f(a)`. -/
def each (f : α → Comp σ ε Unit) : List α → Comp σ ε Unit
  | [] => pure ()
  | a :: as => do f a; each f as

/-- A loop that carries a value: `for a in as: b = f(b, a)`. -/
def foldEach (f : β → α → Comp σ ε β) (b : β) : List α → Comp σ ε β
  | [] => pure b
  | a :: as => do foldEach f (← f b a) as

@[simp] theorem each_nil (f : α → Comp σ ε Unit) : each f [] = pure () := rfl

@[simp] theorem foldEach_nil (f : β → α → Comp σ ε β) (b : β) : foldEach f b [] = pure b := rfl

theorem each_cons (f : α → Comp σ ε Unit) (a : α) (as : List α) :
    each f (a :: as) = (f a >>= fun _ => each f as) := rfl

theorem foldEach_cons (f : β → α → Comp σ ε β) (b : β) (a : α) (as : List α) :
    foldEach f b (a :: as) = (f b a >>= fun b' => foldEach f b' as) := rfl

end Comp

open Comp

/-! ### Triples with one postcondition per exit -/

/-- The two postconditions, read off an exit. -/
def Exit (Q : α → σ → Prop) (E : ε → σ → Prop) : Except ε α × σ → Prop
  | (.ok a, s) => Q a s
  | (.error e, s) => E e s

/-- From every `P`-state, `m` returns into `Q` or raises into `E`. -/
def Triple (P : σ → Prop) (m : Comp σ ε α) (Q : α → σ → Prop) (E : ε → σ → Prop) : Prop :=
  ∀ s, P s → Exit Q E (m s)

section Rules

variable {P : σ → Prop} {Q : α → σ → Prop} {R : β → σ → Prop} {E : ε → σ → Prop}

/-- Read a triple at one state: the normal exit. -/
theorem Triple.ok {m : Comp σ ε α} (h : Triple P m Q E) {s s' : σ} {a : α} (hs : P s)
    (hm : m s = (.ok a, s')) : Q a s' := by
  have := h s hs
  rwa [hm] at this

/-- Read a triple at one state: the raising exit. -/
theorem Triple.error {m : Comp σ ε α} (h : Triple P m Q E) {s s' : σ} {e : ε} (hs : P s)
    (hm : m s = (.error e, s')) : E e s' := by
  have := h s hs
  rwa [hm] at this

theorem Exit.mono {Q' : α → σ → Prop} {E' : ε → σ → Prop} (hQ : ∀ a s, Q a s → Q' a s)
    (hE : ∀ e s, E e s → E' e s) : ∀ {x : Except ε α × σ}, Exit Q E x → Exit Q' E' x
  | (.ok a, s), h => hQ a s h
  | (.error e, s), h => hE e s h

theorem Triple.conseq {P' : σ → Prop} {Q' : α → σ → Prop} {E' : ε → σ → Prop} {m : Comp σ ε α}
    (h : Triple P m Q E) (hP : ∀ s, P' s → P s) (hQ : ∀ a s, Q a s → Q' a s)
    (hE : ∀ e s, E e s → E' e s) : Triple P' m Q' E' :=
  fun s hs => (h s (hP s hs)).mono hQ hE

theorem Triple.post {Q' : α → σ → Prop} {m : Comp σ ε α} (h : Triple P m Q E)
    (hQ : ∀ a s, Q a s → Q' a s) : Triple P m Q' E :=
  h.conseq (fun _ hp => hp) hQ (fun _ _ he => he)

theorem triple_pure {a : α} : Triple (Q a) (pure a) Q E := fun _ h => h

theorem triple_look {I : σ → Prop} : Triple I look (fun a s => a = s ∧ I s) E := fun _ h => ⟨rfl, h⟩

theorem triple_change {I : σ → Prop} {f : σ → σ} (h : ∀ s, P s → I (f s)) : Triple P (change f) (fun _ => I) E :=
  fun s hs => h s hs

/-- Two triples of one program. -/
theorem Triple.and {P' : σ → Prop} {Q' : α → σ → Prop} {E' : ε → σ → Prop} {m : Comp σ ε α} (h : Triple P m Q E)
    (h' : Triple P' m Q' E') :
    Triple (fun s => P s ∧ P' s) m (fun a s => Q a s ∧ Q' a s) (fun e s => E e s ∧ E' e s) := by
  intro s hs
  have hexit := h s hs.1
  have hexit' := h' s hs.2
  rcases hrun : m s with ⟨r, s'⟩
  rw [hrun] at hexit hexit'
  cases r with
  | ok a => exact ⟨hexit, hexit'⟩
  | error e => exact ⟨hexit, hexit'⟩

/-- **Sequencing.**  The first part's normal postcondition is the continuation's precondition. -/
theorem Triple.bind {m : Comp σ ε α} {f : α → Comp σ ε β} (hm : Triple P m Q E)
    (hf : ∀ a, Triple (Q a) (f a) R E) : Triple P (m >>= f) R E := by
  intro s hs
  have h := hm s hs
  rw [bind_apply]
  rcases hms : m s with ⟨r, s'⟩
  rw [hms] at h
  cases r with
  | ok a => exact hf a s' h
  | error e => exact h

/-- **A loop**, by an invariant over what is left of the list. -/
theorem Triple.foldEach {I : List α → β → σ → Prop} {f : β → α → Comp σ ε β}
    (h : ∀ b a as, Triple (I (a :: as) b) (f b a) (fun b' => I as b') E) :
    ∀ (as : List α) (b : β), Triple (I as b) (Comp.foldEach f b as) (fun b' => I [] b') E
  | [], _ => triple_pure (Q := fun b' => I [] b')
  | a :: as, b => (h b a as).bind fun b' => Triple.foldEach h as b'

end Rules

/-! ### The two-state view -/

/-- Whatever the exit, `m` takes an `I`-state to an `I`-state related to it by `R`. -/
def Within (I : σ → Prop) (R : σ → σ → Prop) (m : Comp σ ε α) : Prop :=
  ∀ s, I s → I (m s).2 ∧ R s (m s).2

section TwoState

variable {I : σ → Prop} {R : σ → σ → Prop}

theorem within_pure (hr : ∀ s, R s s) (a : α) : Within I R (pure a : Comp σ ε α) :=
  fun s hs => ⟨hs, hr s⟩

theorem within_raise (hr : ∀ s, R s s) (e : ε) : Within I R (raise e : Comp σ ε α) :=
  fun s hs => ⟨hs, hr s⟩

theorem within_look (hr : ∀ s, R s s) : Within I R (look : Comp σ ε σ) :=
  fun s hs => ⟨hs, hr s⟩

/-- **Sequencing** of two-state facts: `R` has to compose. -/
theorem Within.bind (ht : ∀ a b c, R a b → R b c → R a c) {m : Comp σ ε α} {f : α → Comp σ ε β}
    (hm : Within I R m) (hf : ∀ a, Within I R (f a)) : Within I R (m >>= f) := by
  intro s hs
  obtain ⟨hi, hr⟩ := hm s hs
  rw [bind_apply]
  rcases hms : m s with ⟨r, s'⟩
  rw [hms] at hi hr
  cases r with
  | ok a =>
      obtain ⟨hi', hr'⟩ := hf a s' hi
      exact ⟨hi', ht _ _ _ hr hr'⟩
  | error e => exact ⟨hi, hr⟩

/-- **Sequencing** when the first part's normal exit says more than `I`. -/
theorem Within.bindOk (ht : ∀ a b c, R a b → R b c → R a c) {m : Comp σ ε α} {f : α → Comp σ ε β}
    (hm : Within I R m)
    (hf : ∀ s a s', I s → m s = (.ok a, s') → I s' → I (f a s').2 ∧ R s' (f a s').2) :
    Within I R (m >>= f) := by
  intro s hs
  obtain ⟨hi, hr⟩ := hm s hs
  rw [bind_apply]
  rcases hms : m s with ⟨r, s'⟩
  rw [hms] at hi hr
  cases r with
  | ok a =>
      obtain ⟨hi', hr'⟩ := hf s a s' hs hms hi
      exact ⟨hi', ht _ _ _ hr hr'⟩
  | error e => exact ⟨hi, hr⟩

theorem Within.attempt {m : Comp σ ε α} (hm : Within I R m) : Within I R (Comp.attempt m) := by
  intro s hs
  rw [attempt_apply]
  exact hm s hs

theorem Within.each (hr : ∀ s, R s s) (ht : ∀ a b c, R a b → R b c → R a c)
    {f : α → Comp σ ε Unit} (h : ∀ a, Within I R (f a)) : ∀ as : List α, Within I R (Comp.each f as)
  | [] => within_pure hr ()
  | a :: as => Within.bind ht (h a) fun _ => Within.each hr ht h as

theorem Within.foldEach (hr : ∀ s, R s s) (ht : ∀ a b c, R a b → R b c → R a c)
    {f : β → α → Comp σ ε β} (h : ∀ b a, Within I R (f b a)) :
    ∀ (as : List α) (b : β), Within I R (Comp.foldEach f b as)
  | [], b => within_pure hr b
  | a :: as, b => Within.bind ht (h b a) fun b' => Within.foldEach hr ht h as b'

end TwoState

/-! ### Conditions along one run -/

/-- If `m` returns from `s`, then `P` holds of what it returns and leaves. -/
def After (m : Comp σ ε α) (P : α → σ → Prop) (s : σ) : Prop := ∀ a s', m s = (.ok a, s') → P a s'

/-- `C` holds before each round of the loop. -/
def Along (f : β → α → Comp σ ε β) (C : α → σ → Prop) : List α → β → σ → Prop
  | [], _, _ => True
  | a :: as, b, s => C a s ∧ After (f b a) (Along f C as) s

/-- From the state `s`, `m` ends in an `I`-state, whichever way it exits. -/
def Leaves (I : σ → Prop) (m : Comp σ ε α) (s : σ) : Prop := I (m s).2

section Runs

variable {I : σ → Prop} {s : σ}

/-- **Sequencing** at one state. -/
theorem Leaves.bind {m : Comp σ ε α} {f : α → Comp σ ε β} (hm : Leaves I m s)
    (hf : After m (fun a s' => I s' → Leaves I (f a) s') s) : Leaves I (m >>= f) s := by
  rw [Leaves, bind_apply]
  rw [Leaves] at hm
  rcases hms : m s with ⟨r, s'⟩
  rw [hms] at hm
  cases r with
  | ok a => exact hf a s' hms hm
  | error e => exact hm

/-- After a normal exit, what the continuation leaves. -/
theorem leaves_bind_of_ok {m : Comp σ ε α} {f : α → Comp σ ε β} {a : α} {s' : σ} (h : m s = (.ok a, s'))
    (hf : Leaves I (f a) s') : Leaves I (m >>= f) s := by
  rw [Leaves, bind_of_ok h]
  exact hf

/-- **A loop** at one state: what each round keeps under its condition is kept. -/
theorem leaves_foldEach {f : β → α → Comp σ ε β} {C : α → σ → Prop} (h : ∀ b a s, I s → C a s → Leaves I (f b a) s) :
    ∀ (as : List α) (b : β) (s : σ), I s → Along f C as b s → Leaves I (Comp.foldEach f b as) s
  | [], _, _, hs, _ => hs
  | a :: as, b, s, hs, hC => by
      rw [foldEach_cons]
      exact (h b a s hs hC.1).bind fun b' s' hrun hs' => leaves_foldEach h as b' s' hs' (hC.2 b' s' hrun)

end Runs

end McapCatalog.SurvivingState
