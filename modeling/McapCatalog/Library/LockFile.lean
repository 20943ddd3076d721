import Mathlib.Data.Nat.Notation
import Mathlib.Logic.Function.Basic
import Mathlib.Logic.Relation

/-!
# Locks on files

A process opens a file by its directory entry, creating it where there is none, and takes a lock on what it opened: the
lock belongs to the **file** (its inode), not to the entry.  Who has the lock writes a record of itself into the file, and
who is refused reads it.  Every call is a step of its own, any of them can fail, and a process can die between two.  The
lock goes with the process.

* `Phase`, `Host`, `HostStep` — processes that open, lock, record, are refused and read; `removes e` says that the holder of
  the lock at `e` unlinks the entry before it lets go;
* `Inv`, `HostStep.inv` — owners and holders are the same, and an open file is the one at its entry where nobody unlinks;
* `excludes_iff` — **processes exclude each other exactly if they meet at one entry and nobody unlinks it**;
* `Inv.acquires_iff`, `busy_of_run` — a lock that nobody holds is there to be taken, and is refused as taken only when
  another process holds it;
* `told_explained` — what the refused process reads is blank, was there at the start, or records an earlier holder.
-/

namespace McapCatalog.LockFile

/-- Where a process stands. -/
inductive Phase (Text : Type) where
  /-- It has no file open. -/
  | idle
  /-- It has opened a file. -/
  | opened (ino : ℕ)
  /-- It has the lock. -/
  | held (ino : ℕ)
  /-- It has the lock and has emptied the file. -/
  | cleared (ino : ℕ)
  /-- It has the lock, and has tried to record itself. -/
  | settled (ino : ℕ) (recorded : Bool)
  /-- The lock was refused, as taken (`busy`) or for another reason. -/
  | refused (ino : ℕ) (busy : Bool)
  /-- It has read what the file says, or failed to, and closed it. -/
  | told (ino : ℕ) (busy : Bool) (seen : Option Text)

variable {Proc Entry Text : Type}

/-- The file that a process has open. -/
def Phase.file : Phase Text → Option ℕ
  | .idle => none
  | .opened ino => some ino
  | .held ino => some ino
  | .cleared ino => some ino
  | .settled ino _ => some ino
  | .refused ino _ => some ino
  | .told _ _ _ => none

/-- The file whose lock a process has. -/
def Phase.holds : Phase Text → Option ℕ
  | .idle => none
  | .opened _ => none
  | .held ino => some ino
  | .cleared ino => some ino
  | .settled ino _ => some ino
  | .refused _ _ => none
  | .told _ _ _ => none

theorem Phase.file_of_holds {phase : Phase Text} {ino : ℕ} (h : phase.holds = some ino) : phase.file = some ino := by
  cases phase with
  | idle => cases h
  | opened i => cases h
  | held i => exact h
  | cleared i => exact h
  | settled i recorded => exact h
  | refused i busy => cases h
  | told i busy seen => cases h

/-- The files of a host, who has their locks, and where each process stands. -/
structure Host (Proc Entry Text : Type) where
  entry : Entry → Option ℕ
  /-- Files from here on have never existed. -/
  fresh : ℕ
  text : ℕ → Text
  owner : ℕ → Option Proc
  phase : Proc → Phase Text

variable [DecidableEq Proc] [DecidableEq Entry]

namespace Host

/-- A process moves on. -/
def goes (s : Host Proc Entry Text) (p : Proc) (phase : Phase Text) : Host Proc Entry Text :=
  { s with phase := Function.update s.phase p phase }

/-- A file is written. -/
def writes (s : Host Proc Entry Text) (ino : ℕ) (text : Text) : Host Proc Entry Text :=
  { s with text := Function.update s.text ino text }

/-- A file is created at an entry. -/
def creates (s : Host Proc Entry Text) (e : Entry) (blank : Text) : Host Proc Entry Text :=
  { s with
    entry := Function.update s.entry e (some s.fresh)
    fresh := s.fresh + 1
    text := Function.update s.text s.fresh blank }

/-- A process gets the lock of a file. -/
def grants (s : Host Proc Entry Text) (ino : ℕ) (p : Proc) : Host Proc Entry Text :=
  { s with owner := Function.update s.owner ino (some p) }

/-- An entry is unlinked; the file lives on as long as a process has it open. -/
def unlinks (s : Host Proc Entry Text) (e : Entry) : Host Proc Entry Text :=
  { s with entry := Function.update s.entry e none }

/-- The locks of a process go. -/
def frees (s : Host Proc Entry Text) (p : Proc) : Host Proc Entry Text :=
  { s with owner := fun ino => if s.owner ino = some p then none else s.owner ino }

omit [DecidableEq Entry] in
theorem goes_self (s : Host Proc Entry Text) (p : Proc) (phase : Phase Text) : (s.goes p phase).phase p = phase :=
  Function.update_self ..

omit [DecidableEq Entry] in
theorem goes_of_ne (s : Host Proc Entry Text) {p q : Proc} (phase : Phase Text) (h : q ≠ p) :
    (s.goes p phase).phase q = s.phase q :=
  Function.update_of_ne h ..

omit [DecidableEq Entry] in
/-- A process that lets go of everything leaves the locks of the others. -/
theorem frees_owner {s : Host Proc Entry Text} {p q : Proc} {ino : ℕ} :
    (s.frees p).owner ino = some q ↔ s.owner ino = some q ∧ q ≠ p := by
  show (if s.owner ino = some p then none else s.owner ino) = some q ↔ _
  by_cases howner : s.owner ino = some p
  · rw [if_pos howner]
    refine ⟨fun h => (by cases h), fun h => ?_⟩
    rw [howner] at h
    exact absurd (Option.some.inj h.1).symm h.2
  · rw [if_neg howner]
    refine ⟨fun h => ⟨h, ?_⟩, fun h => h.1⟩
    rintro rfl
    exact howner h

end Host

/-- What the processes do: where each opens its file, what an empty file and a record of it say, and the entries that
their holders unlink. -/
structure Custom (Proc Entry Text : Type) where
  place : Proc → Entry
  blank : Text
  record : Proc → Text
  removes : Entry → Prop

/-- One step of one process. -/
inductive HostStep (c : Custom Proc Entry Text) : Host Proc Entry Text → Host Proc Entry Text → Prop where
  /-- The file is there and is opened. -/
  | opens (s : Host Proc Entry Text) (p : Proc) {ino : ℕ} (hp : s.phase p = .idle) (he : s.entry (c.place p) = some ino) :
      HostStep c s (s.goes p (.opened ino))
  /-- It is not, and is created. -/
  | creates (s : Host Proc Entry Text) (p : Proc) (hp : s.phase p = .idle) (he : s.entry (c.place p) = none) :
      HostStep c s ((s.creates (c.place p) c.blank).goes p (.opened s.fresh))
  /-- The lock is free, and is taken. -/
  | locks (s : Host Proc Entry Text) (p : Proc) {ino : ℕ} (hp : s.phase p = .opened ino) (ho : s.owner ino = none) :
      HostStep c s ((s.grants ino p).goes p (.held ino))
  /-- Another process has it. -/
  | refuses (s : Host Proc Entry Text) (p : Proc) {ino : ℕ} {q : Proc} (hp : s.phase p = .opened ino)
      (ho : s.owner ino = some q) : HostStep c s (s.goes p (.refused ino true))
  /-- The call fails for another reason. -/
  | errs (s : Host Proc Entry Text) (p : Proc) {ino : ℕ} (hp : s.phase p = .opened ino) :
      HostStep c s (s.goes p (.refused ino false))
  /-- The refused process reads the file. -/
  | reads (s : Host Proc Entry Text) (p : Proc) {ino : ℕ} {busy : Bool} (hp : s.phase p = .refused ino busy) :
      HostStep c s (s.goes p (.told ino busy (some (s.text ino))))
  /-- Reading fails. -/
  | readFails (s : Host Proc Entry Text) (p : Proc) {ino : ℕ} {busy : Bool} (hp : s.phase p = .refused ino busy) :
      HostStep c s (s.goes p (.told ino busy none))
  /-- The holder empties the file. -/
  | clears (s : Host Proc Entry Text) (p : Proc) {ino : ℕ} (hp : s.phase p = .held ino) :
      HostStep c s ((s.writes ino c.blank).goes p (.cleared ino))
  /-- That fails, and the holder goes on without a record. -/
  | clearFails (s : Host Proc Entry Text) (p : Proc) {ino : ℕ} (hp : s.phase p = .held ino) :
      HostStep c s (s.goes p (.settled ino false))
  /-- The holder records itself. -/
  | records (s : Host Proc Entry Text) (p : Proc) {ino : ℕ} (hp : s.phase p = .cleared ino) :
      HostStep c s ((s.writes ino (c.record p)).goes p (.settled ino true))
  /-- That fails, and the file stays empty. -/
  | recordFails (s : Host Proc Entry Text) (p : Proc) {ino : ℕ} (hp : s.phase p = .cleared ino) :
      HostStep c s (s.goes p (.settled ino false))
  /-- The holder unlinks its entry before it lets go. -/
  | unlinks (s : Host Proc Entry Text) (p : Proc) {ino : ℕ} {recorded : Bool} (hp : s.phase p = .settled ino recorded)
      (hr : c.removes (c.place p)) : HostStep c s (s.unlinks (c.place p))
  /-- The process lets go, or exits, or dies. -/
  | ends (s : Host Proc Entry Text) (p : Proc) : HostStep c s ((s.frees p).goes p .idle)

/-- A run of any length. -/
abbrev Run (c : Custom Proc Entry Text) : Host Proc Entry Text → Host Proc Entry Text → Prop :=
  Relation.ReflTransGen (HostStep c)

/-- A host on which no process has started; files may be left over, each at one entry. -/
structure Initial (s : Host Proc Entry Text) : Prop where
  owner : ∀ ino, s.owner ino = none
  phase : ∀ p, s.phase p = .idle
  below : ∀ e ino, s.entry e = some ino → ino < s.fresh
  distinct : ∀ e e' ino, s.entry e = some ino → s.entry e' = some ino → e = e'

/-- In no run do two processes that need to exclude each other hold their locks at the same time. -/
def Excludes (c : Custom Proc Entry Text) (conflict : Proc → Proc → Prop) : Prop :=
  ∀ s₀ s, Initial s₀ → Run c s₀ s → ∀ p q, conflict p q → (s.phase p).holds ≠ none → (s.phase q).holds ≠ none → p = q

/-! ### What holds in every run -/

/-- Owners hold what they own, and an open file stands at the entry it was opened by, unless holders unlink that. -/
structure Inv (c : Custom Proc Entry Text) (s : Host Proc Entry Text) : Prop where
  owner : ∀ p ino, s.owner ino = some p ↔ (s.phase p).holds = some ino
  kept : ∀ p ino, ¬c.removes (c.place p) → (s.phase p).file = some ino → s.entry (c.place p) = some ino
  entered : ∀ e ino, s.entry e = some ino → ino < s.fresh
  open_lt : ∀ p ino, (s.phase p).file = some ino → ino < s.fresh
  distinct : ∀ e e' ino, s.entry e = some ino → s.entry e' = some ino → e = e'
  home : ∀ p e ino, s.entry e = some ino → (s.phase p).file = some ino → c.place p = e
  recorded : ∀ p ino, s.phase p = .settled ino true → s.text ino = c.record p

variable {c : Custom Proc Entry Text} {s s' s₀ : Host Proc Entry Text}

omit [DecidableEq Proc] [DecidableEq Entry] in
theorem Initial.inv (h : Initial s) : Inv c s where
  owner p ino := by
    rw [h.owner, h.phase]
    exact ⟨fun ho => (by cases ho), fun ho => (by cases ho)⟩
  kept p ino hr hf := by
    rw [h.phase] at hf
    cases hf
  entered := h.below
  open_lt p ino hf := by
    rw [h.phase] at hf
    cases hf
  distinct := h.distinct
  home p e ino he hf := by
    rw [h.phase] at hf
    cases hf
  recorded p ino hp := by
    rw [h.phase] at hp
    cases hp

omit [DecidableEq Entry] in
/-- A process that holds the same as before, with the same file open or none, moves on. -/
theorem Inv.goes (h : Inv c s) {p : Proc} {phase : Phase Text} (hholds : phase.holds = (s.phase p).holds)
    (hfile : ∀ ino, phase.file = some ino → (s.phase p).file = some ino)
    (hrec : ∀ ino, phase = .settled ino true → s.text ino = c.record p) : Inv c (s.goes p phase) := by
  have hfiles : ∀ q ino, ((s.goes p phase).phase q).file = some ino → (s.phase q).file = some ino := by
    intro q ino hf
    by_cases hqp : q = p
    · rw [hqp, Host.goes_self] at hf
      rw [hqp]
      exact hfile ino hf
    · rw [Host.goes_of_ne s phase hqp] at hf
      exact hf
  refine ⟨fun q ino => ?_, fun q ino hr hf => h.kept q ino hr (hfiles q ino hf), h.entered,
    fun q ino hf => h.open_lt q ino (hfiles q ino hf), h.distinct,
    fun q e ino he hf => h.home q e ino he (hfiles q ino hf), fun q ino hq => ?_⟩
  · by_cases hqp : q = p
    · rw [hqp, Host.goes_self, hholds]
      exact h.owner p ino
    · rw [Host.goes_of_ne s phase hqp]
      exact h.owner q ino
  · by_cases hqp : q = p
    · rw [hqp, Host.goes_self] at hq
      rw [hqp]
      exact hrec ino hq
    · rw [Host.goes_of_ne s phase hqp] at hq
      exact h.recorded q ino hq

omit [DecidableEq Entry] in
/-- An idle process opens the file at its entry. -/
theorem Inv.opens (h : Inv c s) {p : Proc} {ino : ℕ} (hp : s.phase p = .idle)
    (he : s.entry (c.place p) = some ino) : Inv c (s.goes p (.opened ino)) := by
  have hself : ∀ q i, ((s.goes p (.opened ino)).phase q).file = some i →
      (q = p ∧ i = ino) ∨ (s.phase q).file = some i := by
    intro q i hf
    by_cases hqp : q = p
    · rw [hqp, Host.goes_self] at hf
      exact Or.inl ⟨hqp, (Option.some.inj hf).symm⟩
    · rw [Host.goes_of_ne s _ hqp] at hf
      exact Or.inr hf
  refine ⟨fun q i => ?_, fun q i hr hf => ?_, h.entered, fun q i hf => ?_, h.distinct, fun q e i hi hf => ?_,
    fun q i hq => ?_⟩
  · by_cases hqp : q = p
    · rw [hqp, Host.goes_self]
      have hown := h.owner p i
      rw [hp] at hown
      exact hown
    · rw [Host.goes_of_ne s _ hqp]
      exact h.owner q i
  · cases hself q i hf with
    | inl heq => rw [heq.1, heq.2]; exact he
    | inr hold => exact h.kept q i hr hold
  · cases hself q i hf with
    | inl heq => rw [heq.2]; exact h.entered _ _ he
    | inr hold => exact h.open_lt q i hold
  · cases hself q i hf with
    | inl heq =>
        rw [heq.2] at hi
        rw [heq.1]
        exact h.distinct _ _ ino he hi
    | inr hold => exact h.home q e i hi hold
  · by_cases hqp : q = p
    · rw [hqp, Host.goes_self] at hq
      cases hq
    · rw [Host.goes_of_ne s _ hqp] at hq
      exact h.recorded q i hq

omit [DecidableEq Proc] in
/-- A new file at an entry that had none. -/
theorem Inv.creates (h : Inv c s) {e : Entry} (he : s.entry e = none) : Inv c (s.creates e c.blank) := by
  have hentry : ∀ e' i, (s.creates e c.blank).entry e' = some i →
      (e' = e ∧ i = s.fresh) ∨ (e' ≠ e ∧ s.entry e' = some i) := by
    intro e' i hi
    have hi' : Function.update s.entry e (some s.fresh) e' = some i := hi
    by_cases heq : e' = e
    · rw [heq, Function.update_self] at hi'
      exact Or.inl ⟨heq, (Option.some.inj hi').symm⟩
    · rw [Function.update_of_ne heq] at hi'
      exact Or.inr ⟨heq, hi'⟩
  refine ⟨h.owner, fun q i hr hf => ?_, fun e' i hi => ?_, fun q i hf => Nat.lt_succ_of_lt (h.open_lt q i hf),
    fun e₁ e₂ i h₁ h₂ => ?_, fun q e' i hi hf => ?_, fun q i hq => ?_⟩
  · have hplace : c.place q ≠ e := by
      intro heq
      have hkept := h.kept q i hr hf
      rw [heq, he] at hkept
      cases hkept
    show Function.update s.entry e (some s.fresh) (c.place q) = some i
    rw [Function.update_of_ne hplace]
    exact h.kept q i hr hf
  · cases hentry e' i hi with
    | inl hnew => rw [hnew.2]; exact Nat.lt_succ_self _
    | inr hold => exact Nat.lt_succ_of_lt (h.entered e' i hold.2)
  · cases hentry e₁ i h₁ with
    | inl hnew₁ =>
        cases hentry e₂ i h₂ with
        | inl hnew₂ => rw [hnew₁.1, hnew₂.1]
        | inr hold₂ => exact absurd hnew₁.2 (Nat.ne_of_lt (h.entered e₂ i hold₂.2))
    | inr hold₁ =>
        cases hentry e₂ i h₂ with
        | inl hnew₂ => exact absurd hnew₂.2 (Nat.ne_of_lt (h.entered e₁ i hold₁.2))
        | inr hold₂ => exact h.distinct e₁ e₂ i hold₁.2 hold₂.2
  · cases hentry e' i hi with
    | inl hnew => exact absurd hnew.2 (Nat.ne_of_lt (h.open_lt q i hf))
    | inr hold => exact h.home q e' i hold.2 hf
  · have hlt : i < s.fresh := h.open_lt q i (by rw [show s.phase q = .settled i true from hq]; rfl)
    show Function.update s.text s.fresh c.blank i = c.record q
    rw [Function.update_of_ne (Nat.ne_of_lt hlt)]
    exact h.recorded q i hq

omit [DecidableEq Entry] in
/-- A process with an open file takes its free lock. -/
theorem Inv.locks (h : Inv c s) {p : Proc} {ino : ℕ} (hp : s.phase p = .opened ino) (ho : s.owner ino = none) :
    Inv c ((s.grants ino p).goes p (.held ino)) := by
  have hfiles : ∀ q i, (((s.grants ino p).goes p (.held ino)).phase q).file = some i → (s.phase q).file = some i := by
    intro q i hf
    by_cases hqp : q = p
    · rw [hqp, Host.goes_self] at hf
      rw [hqp, hp]
      exact hf
    · rw [Host.goes_of_ne _ _ hqp] at hf
      exact hf
  refine ⟨fun q i => ?_, fun q i hr hf => h.kept q i hr (hfiles q i hf), h.entered,
    fun q i hf => h.open_lt q i (hfiles q i hf), h.distinct, fun q e i he hf => h.home q e i he (hfiles q i hf),
    fun q i hq => ?_⟩
  · show Function.update s.owner ino (some p) i = some q ↔ _
    by_cases hqp : q = p
    · rw [hqp, Host.goes_self]
      by_cases hi : i = ino
      · rw [hi, Function.update_self]
        exact ⟨fun _ => rfl, fun _ => rfl⟩
      · rw [Function.update_of_ne hi, h.owner p i, hp]
        refine ⟨fun hold => (by cases hold), fun hnew => absurd (Option.some.inj hnew).symm hi⟩
    · rw [Host.goes_of_ne _ _ hqp]
      by_cases hi : i = ino
      · rw [hi, Function.update_self]
        refine ⟨fun heq => absurd (Option.some.inj heq).symm hqp, fun hold => ?_⟩
        have hown := (h.owner q ino).mpr hold
        rw [ho] at hown
        cases hown
      · rw [Function.update_of_ne hi]
        exact h.owner q i
  · by_cases hqp : q = p
    · rw [hqp, Host.goes_self] at hq
      cases hq
    · rw [Host.goes_of_ne _ _ hqp] at hq
      exact h.recorded q i hq

omit [DecidableEq Proc] [DecidableEq Entry] in
/-- The holder of a lock writes into its file, as long as it has no record in it. -/
theorem Inv.writes (h : Inv c s) {p : Proc} {ino : ℕ} (hp : (s.phase p).holds = some ino)
    (hnot : s.phase p ≠ .settled ino true) (text : Text) : Inv c (s.writes ino text) := by
  refine ⟨h.owner, h.kept, h.entered, h.open_lt, h.distinct, h.home, fun q i hq => ?_⟩
  have hqi : s.phase q = .settled i true := hq
  show Function.update s.text ino text i = c.record q
  by_cases hi : i = ino
  · -- two holders of one file are one process
    have hown := (h.owner q ino).mpr (by rw [hqi, hi]; rfl)
    rw [(h.owner p ino).mpr hp] at hown
    rw [← Option.some.inj hown, hi] at hqi
    exact absurd hqi hnot
  · rw [Function.update_of_ne hi]
    exact h.recorded q i hqi

omit [DecidableEq Proc] in
/-- A holder unlinks its entry. -/
theorem Inv.unlinks (h : Inv c s) {e : Entry} (hr : c.removes e) : Inv c (s.unlinks e) := by
  have hentry : ∀ e' i, (s.unlinks e).entry e' = some i → s.entry e' = some i := by
    intro e' i hi
    have hi' : Function.update s.entry e none e' = some i := hi
    by_cases heq : e' = e
    · rw [heq, Function.update_self] at hi'
      cases hi'
    · rwa [Function.update_of_ne heq] at hi'
  refine ⟨h.owner, fun q i hq hf => ?_, fun e' i hi => h.entered e' i (hentry e' i hi), h.open_lt,
    fun e₁ e₂ i h₁ h₂ => h.distinct e₁ e₂ i (hentry e₁ i h₁) (hentry e₂ i h₂),
    fun q e' i hi hf => h.home q e' i (hentry e' i hi) hf, h.recorded⟩
  show Function.update s.entry e none (c.place q) = some i
  rw [Function.update_of_ne (show c.place q ≠ e by rintro rfl; exact hq hr)]
  exact h.kept q i hq hf

omit [DecidableEq Entry] in
/-- A process is gone. -/
theorem Inv.ends (h : Inv c s) (p : Proc) : Inv c ((s.frees p).goes p .idle) := by
  have hother : ∀ q i, (((s.frees p).goes p .idle).phase q).file = some i → q ≠ p ∧ (s.phase q).file = some i := by
    intro q i hf
    by_cases hqp : q = p
    · rw [hqp, Host.goes_self] at hf
      cases hf
    · rw [Host.goes_of_ne _ _ hqp] at hf
      exact ⟨hqp, hf⟩
  refine ⟨fun q i => ?_, fun q i hr hf => h.kept q i hr (hother q i hf).2, h.entered,
    fun q i hf => h.open_lt q i (hother q i hf).2, h.distinct, fun q e i he hf => h.home q e i he (hother q i hf).2,
    fun q i hq => ?_⟩
  · show (s.frees p).owner i = some q ↔ _
    rw [Host.frees_owner]
    by_cases hqp : q = p
    · rw [hqp, Host.goes_self]
      exact ⟨fun ho => absurd rfl ho.2, fun ho => by cases ho⟩
    · rw [Host.goes_of_ne _ _ hqp]
      show _ ↔ (s.phase q).holds = some i
      rw [← h.owner q i]
      exact ⟨fun ho => ho.1, fun ho => ⟨ho, hqp⟩⟩
  · by_cases hqp : q = p
    · rw [hqp, Host.goes_self] at hq
      cases hq
    · rw [Host.goes_of_ne _ _ hqp] at hq
      exact h.recorded q i hq

/-- **One step keeps the invariant.** -/
theorem HostStep.inv (hs : HostStep c s s') (h : Inv c s) : Inv c s' := by
  cases hs with
  | opens p hp he => exact h.opens hp he
  | creates p hp he =>
      exact (h.creates he).opens (p := p) hp (Function.update_self ..)
  | locks p hp ho => exact h.locks hp ho
  | refuses p hp ho =>
      refine h.goes (by rw [hp]; rfl) (fun ino hf => ?_) fun ino hrec => by cases hrec
      rw [hp]
      exact hf
  | errs p hp =>
      refine h.goes (by rw [hp]; rfl) (fun ino hf => ?_) fun ino hrec => by cases hrec
      rw [hp]
      exact hf
  | reads p hp => exact h.goes (by rw [hp]; rfl) (fun ino hf => by cases hf) fun ino hrec => by cases hrec
  | readFails p hp => exact h.goes (by rw [hp]; rfl) (fun ino hf => by cases hf) fun ino hrec => by cases hrec
  | @clears p ino hp =>
      have hw := h.writes (show (s.phase p).holds = some ino by rw [hp]; rfl) (by rw [hp]; exact fun heq => by cases heq)
        c.blank
      refine hw.goes (show _ = (s.phase p).holds by rw [hp]; rfl) (fun i hf => ?_) fun i hrec => by cases hrec
      show (s.phase p).file = some i
      rw [hp]
      exact hf
  | clearFails p hp =>
      refine h.goes (by rw [hp]; rfl) (fun ino hf => ?_) fun ino hrec => by cases hrec
      rw [hp]
      exact hf
  | @records p ino hp =>
      have hw := h.writes (show (s.phase p).holds = some ino by rw [hp]; rfl) (by rw [hp]; exact fun heq => by cases heq)
        (c.record p)
      refine hw.goes (show _ = (s.phase p).holds by rw [hp]; rfl) (fun i hf => ?_) fun i hrec => ?_
      · show (s.phase p).file = some i
        rw [hp]
        exact hf
      · cases hrec
        exact Function.update_self ..
  | recordFails p hp =>
      refine h.goes (by rw [hp]; rfl) (fun ino hf => ?_) fun ino hrec => by cases hrec
      rw [hp]
      exact hf
  | unlinks p hp hr => exact h.unlinks hr
  | ends p => exact h.ends p

theorem Inv.run (h : Inv c s) (hrun : Run c s s') : Inv c s' := by
  induction hrun with
  | refl => exact h
  | tail _ hs ih => exact hs.inv ih

theorem inv_of_run (h₀ : Initial s₀) (hrun : Run c s₀ s) : Inv c s :=
  h₀.inv.run hrun

/-! ### Exclusion -/

omit [DecidableEq Proc] [DecidableEq Entry] in
/-- Holders of the lock at an entry that is never unlinked are one process. -/
theorem Inv.holder_unique (h : Inv c s) {p q : Proc} {i j : ℕ} (hr : ¬c.removes (c.place p))
    (hplace : c.place p = c.place q) (hp : (s.phase p).holds = some i) (hq : (s.phase q).holds = some j) : p = q := by
  have hpe := h.kept p i hr (Phase.file_of_holds hp)
  have hqe := h.kept q j (hplace ▸ hr) (Phase.file_of_holds hq)
  rw [hplace, hqe] at hpe
  have hpo := (h.owner p i).mpr hp
  have hqo := (h.owner q j).mpr hq
  rw [Option.some.inj hpe, hpo] at hqo
  exact Option.some.inj hqo

/-- A host without files or processes. -/
def vacant (blank : Text) : Host Proc Entry Text := ⟨fun _ => none, 0, fun _ => blank, fun _ => none, fun _ => .idle⟩

omit [DecidableEq Proc] [DecidableEq Entry] in
theorem initial_vacant (blank : Text) : Initial (vacant blank : Host Proc Entry Text) :=
  ⟨fun _ => rfl, fun _ => rfl, fun _ _ h => (by cases h), fun _ _ _ h => (by cases h)⟩

/-- A process that finds no file at its entry ends up with the lock of a new one. -/
theorem run_takes {p : Proc} (hp : s.phase p = .idle) (he : s.entry (c.place p) = none) (ho : s.owner s.fresh = none) :
    Run c s (((s.creates (c.place p) c.blank).goes p (.opened s.fresh)).grants s.fresh p |>.goes p (.held s.fresh)) :=
  (Relation.ReflTransGen.single (HostStep.creates s p hp he)).tail (HostStep.locks _ p (Host.goes_self ..) ho)

/-- **Unlinking before letting go lets a second holder in**: one process takes the lock of the file that was just
unlinked, and another one that of a new file. -/
theorem exists_overlap {p q : Proc} (hpq : p ≠ q) (hplace : c.place p = c.place q) (hr : c.removes (c.place p)) :
    ∃ s, Run c (vacant c.blank) s ∧ (s.phase p).holds ≠ none ∧ (s.phase q).holds ≠ none := by
  let s₁ : Host Proc Entry Text := (vacant c.blank).creates (c.place p) c.blank |>.goes p (.opened 0)
    |>.grants 0 p |>.goes p (.held 0)
  have hrun₁ : Run c (vacant c.blank) s₁ := run_takes rfl rfl rfl
  let s₂ : Host Proc Entry Text := s₁.goes p (.settled 0 false)
  have hrun₂ : Run c (vacant c.blank) s₂ := hrun₁.tail (HostStep.clearFails s₁ p (Host.goes_self ..))
  have hidle : s₂.phase q = .idle :=
    (Host.goes_of_ne s₁ _ hpq.symm).trans ((Host.goes_of_ne _ _ hpq.symm).trans (Host.goes_of_ne _ _ hpq.symm))
  have hentry : s₂.entry (c.place q) = some 0 := by
    rw [← hplace]
    exact Function.update_self ..
  -- the second process has opened the file when the first one unlinks it
  let s₃ : Host Proc Entry Text := s₂.goes q (.opened 0)
  have hrun₃ : Run c (vacant c.blank) s₃ := hrun₂.tail (HostStep.opens s₂ q hidle hentry)
  have hsettled : s₃.phase p = .settled 0 false := (Host.goes_of_ne s₂ _ hpq).trans (Host.goes_self ..)
  let s₄ : Host Proc Entry Text := s₃.unlinks (c.place p)
  have hrun₄ : Run c (vacant c.blank) s₄ := hrun₃.tail (HostStep.unlinks s₃ p hsettled hr)
  let s₅ : Host Proc Entry Text := (s₄.frees p).goes p .idle
  have hrun₅ : Run c (vacant c.blank) s₅ := hrun₄.tail (HostStep.ends s₄ p)
  have howner : s₄.owner = Function.update (fun _ => none) 0 (some p) := rfl
  have hfree : s₅.owner 0 = none := by
    show (if s₄.owner 0 = some p then none else s₄.owner 0) = none
    rw [howner, Function.update_self, if_pos rfl]
  have hopened : s₅.phase q = .opened 0 := (Host.goes_of_ne _ _ hpq.symm).trans (Host.goes_self s₂ q _)
  let s₆ : Host Proc Entry Text := (s₅.grants 0 q).goes q (.held 0)
  have hrun₆ : Run c (vacant c.blank) s₆ := hrun₅.tail (HostStep.locks s₅ q hopened hfree)
  -- the first process comes back and finds no file at the entry
  have hback : s₆.phase p = .idle := (Host.goes_of_ne _ _ hpq).trans (Host.goes_self ..)
  have hgone : s₆.entry (c.place p) = none := Function.update_self ..
  have hnew : s₆.owner 1 = none := by
    show Function.update s₅.owner 0 (some q) 1 = none
    rw [Function.update_of_ne (by decide)]
    show (if s₄.owner 1 = some p then none else s₄.owner 1) = none
    rw [howner, Function.update_of_ne (by decide), if_neg (fun h => by cases h)]
  refine ⟨_, hrun₆.trans (run_takes (c := c) hback hgone hnew), ?_, ?_⟩
  · rw [Host.goes_self]
    exact fun h => by cases h
  · rw [Host.goes_of_ne _ _ hpq.symm]
    show ((Host.goes _ p _).phase q).holds ≠ none
    rw [Host.goes_of_ne _ _ hpq.symm]
    show (s₆.phase q).holds ≠ none
    rw [Host.goes_self]
    exact fun h => by cases h

/-- Locks at two entries have nothing to do with each other. -/
theorem exists_apart {p q : Proc} (hpq : p ≠ q) (hplace : c.place p ≠ c.place q) :
    ∃ s, Run c (vacant c.blank) s ∧ (s.phase p).holds ≠ none ∧ (s.phase q).holds ≠ none := by
  let s₁ : Host Proc Entry Text := (vacant c.blank).creates (c.place p) c.blank |>.goes p (.opened 0)
    |>.grants 0 p |>.goes p (.held 0)
  have hrun₁ : Run c (vacant c.blank) s₁ := run_takes rfl rfl rfl
  have hidle : s₁.phase q = .idle := (Host.goes_of_ne _ _ hpq.symm).trans (Host.goes_of_ne _ _ hpq.symm)
  have hnone : s₁.entry (c.place q) = none := Function.update_of_ne hplace.symm ..
  have hfree : s₁.owner s₁.fresh = none := by
    show Function.update (fun _ => none) 0 (some p) 1 = none
    rw [Function.update_of_ne (by decide)]
  refine ⟨_, hrun₁.trans (run_takes (c := c) hidle hnone hfree), ?_, ?_⟩
  · rw [Host.goes_of_ne _ _ hpq]
    show ((Host.goes _ q _).phase p).holds ≠ none
    rw [Host.goes_of_ne _ _ hpq]
    show (s₁.phase p).holds ≠ none
    rw [Host.goes_self]
    exact fun h => by cases h
  · rw [Host.goes_self]
    exact fun h => by cases h

/-- **Processes in conflict exclude each other exactly if they meet at one entry and nobody unlinks it.** -/
theorem excludes_iff (c : Custom Proc Entry Text) (conflict : Proc → Proc → Prop) :
    Excludes c conflict ↔ ∀ p q, p ≠ q → conflict p q → c.place p = c.place q ∧ ¬c.removes (c.place p) := by
  constructor
  · intro hex p q hpq hconflict
    have hplace : c.place p = c.place q := by
      by_contra hne
      obtain ⟨s, hrun, hp, hq⟩ := exists_apart hpq hne
      exact hpq (hex _ s (initial_vacant c.blank) hrun p q hconflict hp hq)
    refine ⟨hplace, fun hr => ?_⟩
    obtain ⟨s, hrun, hp, hq⟩ := exists_overlap hpq hplace hr
    exact hpq (hex _ s (initial_vacant c.blank) hrun p q hconflict hp hq)
  · intro hmeet s₀ s h₀ hrun p q hconflict hp hq
    by_contra hpq
    obtain ⟨hplace, hr⟩ := hmeet p q hpq hconflict
    obtain ⟨i, hi⟩ := Option.ne_none_iff_exists'.mp hp
    obtain ⟨j, hj⟩ := Option.ne_none_iff_exists'.mp hq
    exact hpq ((inv_of_run h₀ hrun).holder_unique hr hplace hi hj)

/-! ### Availability -/

omit [DecidableEq Proc] [DecidableEq Entry] in
/-- **The lock of an open file is free exactly if no process at its entry holds one.** -/
theorem Inv.free_iff (h : Inv c s) (hc : ∀ e, ¬c.removes e) {p : Proc} {ino : ℕ} (hp : s.phase p = .opened ino) :
    s.owner ino = none ↔ ∀ q, c.place q = c.place p → (s.phase q).holds = none := by
  have hentry : s.entry (c.place p) = some ino := h.kept p ino (hc _) (by rw [hp]; rfl)
  constructor
  · intro hfree q hplace
    cases hq : (s.phase q).holds with
    | none => rfl
    | some j =>
        have hqe := h.kept q j (hc _) (Phase.file_of_holds hq)
        rw [hplace, hentry] at hqe
        rw [← Option.some.inj hqe, ← h.owner q ino, hfree] at hq
        cases hq
  · intro hnone
    cases howner : s.owner ino with
    | none => rfl
    | some q =>
        have hq := (h.owner q ino).mp howner
        rw [hnone q (h.home q _ ino hentry (Phase.file_of_holds hq))] at hq
        cases hq

/-- Only one process has moved. -/
def Others (p : Proc) (s s' : Host Proc Entry Text) : Prop := ∀ q, q ≠ p → s'.phase q = s.phase q

omit [DecidableEq Entry] in
theorem others_goes (s : Host Proc Entry Text) (p : Proc) (phase : Phase Text) : Others p s (s.goes p phase) :=
  fun _ hqp => Host.goes_of_ne s phase hqp

omit [DecidableEq Proc] [DecidableEq Entry] in
theorem Others.trans {p : Proc} {t : Host Proc Entry Text} (h : Others p s t) (h' : Others p t s') : Others p s s' :=
  fun q hqp => (h' q hqp).trans (h q hqp)

/-- An open file whose lock is free is locked and recorded in three calls. -/
theorem run_settles {p : Proc} {ino : ℕ} (hp : s.phase p = .opened ino) (ho : s.owner ino = none) :
    ∃ s', Run c s s' ∧ Others p s s' ∧ s'.phase p = .settled ino true := by
  let s₁ : Host Proc Entry Text := (s.grants ino p).goes p (.held ino)
  let s₂ : Host Proc Entry Text := (s₁.writes ino c.blank).goes p (.cleared ino)
  have hlock : HostStep c s s₁ := HostStep.locks s p hp ho
  have hclear : HostStep c s₁ s₂ := HostStep.clears s₁ p (Host.goes_self ..)
  have hrecord := HostStep.records (c := c) s₂ p (Host.goes_self ..)
  refine ⟨_, ((Relation.ReflTransGen.single hlock).tail hclear).tail hrecord, ?_, Host.goes_self ..⟩
  exact (others_goes (s.grants ino p) p _).trans
    ((others_goes (s₁.writes ino c.blank) p _).trans (others_goes (s₂.writes ino (c.record p)) p _))

/-- A process that has just opened its file finds the lock free if nobody at its entry holds it. -/
theorem Inv.settles (h : Inv c s) (hc : ∀ e, ¬c.removes e) {p : Proc} {ino : ℕ} {t : Host Proc Entry Text}
    (hstep : HostStep c s t) (hothers : Others p s t) (hopened : t.phase p = .opened ino)
    (hnone : ∀ q, c.place q = c.place p → (s.phase q).holds = none) :
    ∃ s', Run c s s' ∧ Others p s s' ∧ s'.phase p = .settled ino true := by
  have hfree : t.owner ino = none := by
    refine ((hstep.inv h).free_iff hc hopened).mpr fun q hplace => ?_
    by_cases hqp : q = p
    · rw [hqp, hopened]
      rfl
    · rw [hothers q hqp]
      exact hnone q hplace
  obtain ⟨s', hrun, hrest, hs'⟩ := run_settles (c := c) hopened hfree
  exact ⟨s', (Relation.ReflTransGen.single hstep).trans hrun, hothers.trans hrest, hs'⟩

/-- **A process gets the lock at its entry, with nobody else moving, exactly if nobody holds it**, whatever the processes
before did and however they ended. -/
theorem Inv.acquires_iff (h : Inv c s) (hc : ∀ e, ¬c.removes e) {p : Proc} (hp : s.phase p = .idle) :
    (∃ s' ino, Run c s s' ∧ Others p s s' ∧ s'.phase p = .settled ino true) ↔
      ∀ q, c.place q = c.place p → (s.phase q).holds = none := by
  constructor
  · rintro ⟨s', ino, hrun, hothers, hs'⟩ q hplace
    by_cases hqp : q = p
    · rw [hqp, hp]
      rfl
    · cases hq : (s.phase q).holds with
      | none => rfl
      | some j =>
          rw [← hothers q hqp] at hq
          exact absurd ((h.run hrun).holder_unique (hc _) hplace hq (by rw [hs']; rfl)) hqp
  · intro hnone
    cases he : s.entry (c.place p) with
    | none =>
        obtain ⟨s', hrun, hothers, hs'⟩ := h.settles hc (HostStep.creates s p hp he)
          (others_goes (s.creates (c.place p) c.blank) p _) (Host.goes_self ..) hnone
        exact ⟨s', _, hrun, hothers, hs'⟩
    | some ino =>
        obtain ⟨s', hrun, hothers, hs'⟩ := h.settles hc (HostStep.opens s p hp he) (others_goes s p _) (Host.goes_self ..) hnone
        exact ⟨s', _, hrun, hothers, hs'⟩

/-! ### What a refused process is told -/

/-- What the file at an entry may say in a run: nothing, what it said at the start, or the record of a process that has
held its lock. -/
def Explained (c : Custom Proc Entry Text) (s₀ s : Host Proc Entry Text) (e : Entry) (text : Text) : Prop :=
  text = c.blank ∨ (∃ ino, s₀.entry e = some ino ∧ text = s₀.text ino) ∨
    ∃ q s', Run c s₀ s' ∧ Run c s' s ∧ c.place q = e ∧ (s'.phase q).holds ≠ none ∧ text = c.record q

theorem Explained.later {e : Entry} {text : Text} (h : Explained c s₀ s e text) (hrun : Run c s s') :
    Explained c s₀ s' e text := by
  rcases h with hblank | hleft | ⟨q, t, hbefore, hafter, hplace, hholds, htext⟩
  · exact Or.inl hblank
  · exact Or.inr (Or.inl hleft)
  · exact Or.inr (Or.inr ⟨q, t, hbefore, hafter.trans hrun, hplace, hholds, htext⟩)

/-- What a step does to a file that stands at an entry: it is new and blank, or as before, or its holder has written. -/
theorem HostStep.text (hs : HostStep c s s') (h : Inv c s) {e : Entry} {ino : ℕ} (he : s'.entry e = some ino) :
    s'.text ino = c.blank ∨ (s.entry e = some ino ∧ s'.text ino = s.text ino) ∨
      ∃ q, c.place q = e ∧ (s.phase q).holds ≠ none ∧ s'.text ino = c.record q := by
  cases hs with
  | creates p hp hnone =>
      have hentry : Function.update s.entry (c.place p) (some s.fresh) e = some ino := he
      by_cases heq : e = c.place p
      · rw [heq, Function.update_self] at hentry
        rw [← Option.some.inj hentry]
        exact Or.inl (Function.update_self ..)
      · rw [Function.update_of_ne heq] at hentry
        exact Or.inr (Or.inl ⟨hentry, Function.update_of_ne (Nat.ne_of_lt (h.entered e ino hentry)) ..⟩)
  | @clears p i hp =>
      by_cases hi : ino = i
      · exact Or.inl (hi ▸ Function.update_self ..)
      · exact Or.inr (Or.inl ⟨he, Function.update_of_ne hi ..⟩)
  | @records p i hp =>
      by_cases hi : ino = i
      · have hentry : s.entry e = some i := hi ▸ he
        refine Or.inr (Or.inr ⟨p, h.home p e i hentry (by rw [hp]; rfl), by rw [hp]; exact fun hn => (by cases hn), ?_⟩)
        rw [hi]
        exact Function.update_self ..
      · exact Or.inr (Or.inl ⟨he, Function.update_of_ne hi ..⟩)
  | unlinks p hp hr =>
      have hentry : Function.update s.entry (c.place p) none e = some ino := he
      by_cases heq : e = c.place p
      · rw [heq, Function.update_self] at hentry
        cases hentry
      · rw [Function.update_of_ne heq] at hentry
        exact Or.inr (Or.inl ⟨hentry, rfl⟩)
  | opens p hp hsome => exact Or.inr (Or.inl ⟨he, rfl⟩)
  | locks p hp ho => exact Or.inr (Or.inl ⟨he, rfl⟩)
  | refuses p hp ho => exact Or.inr (Or.inl ⟨he, rfl⟩)
  | errs p hp => exact Or.inr (Or.inl ⟨he, rfl⟩)
  | reads p hp => exact Or.inr (Or.inl ⟨he, rfl⟩)
  | readFails p hp => exact Or.inr (Or.inl ⟨he, rfl⟩)
  | clearFails p hp => exact Or.inr (Or.inl ⟨he, rfl⟩)
  | recordFails p hp => exact Or.inr (Or.inl ⟨he, rfl⟩)
  | ends p => exact Or.inr (Or.inl ⟨he, rfl⟩)

/-- **Every file that stands at an entry says something explained.** -/
theorem explained_of_run (h₀ : Initial s₀) (hrun : Run c s₀ s) {e : Entry} {ino : ℕ} (he : s.entry e = some ino) :
    Explained c s₀ s e (s.text ino) := by
  induction hrun generalizing ino with
  | refl => exact Or.inr (Or.inl ⟨ino, he, rfl⟩)
  | @tail t s hbefore hs ih =>
      rcases hs.text (inv_of_run h₀ hbefore) he with hblank | ⟨hentry, htext⟩ | ⟨q, hplace, hholds, htext⟩
      · exact Or.inl hblank
      · rw [htext]
        exact (ih hentry).later (Relation.ReflTransGen.single hs)
      · exact Or.inr (Or.inr ⟨q, t, hbefore, Relation.ReflTransGen.single hs, hplace, hholds, htext⟩)

omit [DecidableEq Entry] in
/-- Whoever is in a phase has just got there or was there before. -/
theorem goes_cases {p q : Proc} {phase phase' : Phase Text} (h : (s.goes p phase).phase q = phase') :
    (q = p ∧ phase = phase') ∨ s.phase q = phase' := by
  by_cases hqp : q = p
  · rw [hqp, Host.goes_self] at h
    exact Or.inl ⟨hqp, h⟩
  · rw [Host.goes_of_ne s phase hqp] at h
    exact Or.inr h

/-- What a process has been told it was told before, or it has just read it off the file it has open. -/
theorem HostStep.told (hs : HostStep c s s') {p : Proc} {ino : ℕ} {busy : Bool} {text : Text}
    (hp : s'.phase p = .told ino busy (some text)) :
    s.phase p = .told ino busy (some text) ∨ (s.phase p = .refused ino busy ∧ text = s.text ino) := by
  cases hs with
  | reads q hq =>
      cases goes_cases hp with
      | inl hnew =>
          obtain ⟨rfl, heq⟩ := hnew
          cases heq
          exact Or.inr ⟨hq, rfl⟩
      | inr hold => exact Or.inl hold
  | unlinks q hq hr => exact Or.inl hp
  | opens q hq he => exact Or.inl ((goes_cases hp).resolve_left fun h => by cases h.2)
  | creates q hq he => exact Or.inl ((goes_cases hp).resolve_left fun h => by cases h.2)
  | locks q hq ho => exact Or.inl ((goes_cases hp).resolve_left fun h => by cases h.2)
  | refuses q hq ho => exact Or.inl ((goes_cases hp).resolve_left fun h => by cases h.2)
  | errs q hq => exact Or.inl ((goes_cases hp).resolve_left fun h => by cases h.2)
  | readFails q hq => exact Or.inl ((goes_cases hp).resolve_left fun h => by cases h.2)
  | clears q hq => exact Or.inl ((goes_cases hp).resolve_left fun h => by cases h.2)
  | clearFails q hq => exact Or.inl ((goes_cases hp).resolve_left fun h => by cases h.2)
  | records q hq => exact Or.inl ((goes_cases hp).resolve_left fun h => by cases h.2)
  | recordFails q hq => exact Or.inl ((goes_cases hp).resolve_left fun h => by cases h.2)
  | ends q => exact Or.inl ((goes_cases hp).resolve_left fun h => by cases h.2)

/-- **What a refused process is told is explained** by what was at its entry or by who held the lock there. -/
theorem told_explained (h₀ : Initial s₀) (hrun : Run c s₀ s) (hc : ∀ e, ¬c.removes e) {p : Proc} {ino : ℕ} {busy : Bool}
    {text : Text} (hp : s.phase p = .told ino busy (some text)) : Explained c s₀ s (c.place p) text := by
  induction hrun with
  | refl =>
      rw [h₀.phase] at hp
      cases hp
  | @tail t s hbefore hs ih =>
      have hlast := Relation.ReflTransGen.single hs
      cases hs.told hp with
      | inl hold => exact (ih hold).later hlast
      | inr hnew =>
          have hentry := (inv_of_run h₀ hbefore).kept p ino (hc _) (by rw [hnew.1]; rfl)
          rw [hnew.2]
          exact (explained_of_run h₀ hbefore hentry).later hlast

/-- Whether a process has been refused a lock as taken. -/
def Phase.busy : Phase Text → Bool
  | .idle => false
  | .opened _ => false
  | .held _ => false
  | .cleared _ => false
  | .settled _ _ => false
  | .refused _ busy => busy
  | .told _ busy _ => busy

/-- A process that has been refused a lock as taken was so before, or another one has it now. -/
theorem HostStep.busy (hs : HostStep c s s') {p : Proc} (hp : (s'.phase p).busy = true) :
    (s.phase p).busy = true ∨ ∃ q ino, s.phase p = .opened ino ∧ s.owner ino = some q := by
  have hself : ∀ {t : Host Proc Entry Text} {q : Proc} {phase : Phase Text}, t.phase = s.phase →
      ((t.goes q phase).phase p).busy = true → (q = p ∧ phase.busy = true) ∨ (s.phase p).busy = true := by
    intro t q phase ht h
    cases goes_cases (show (t.goes q phase).phase p = (t.goes q phase).phase p from rfl) with
    | inl hnew => exact Or.inl ⟨hnew.1.symm, hnew.2 ▸ h⟩
    | inr hold => exact Or.inr (by rw [← ht, hold]; exact h)
  cases hs with
  | @refuses q ino r hq ho =>
      cases hself rfl hp with
      | inl hnew => exact Or.inr ⟨r, ino, hnew.1 ▸ hq, ho⟩
      | inr hold => exact Or.inl hold
  | @reads q ino busy hq =>
      cases hself rfl hp with
      | inl hnew => exact Or.inl (by rw [← hnew.1, hq]; exact hnew.2)
      | inr hold => exact Or.inl hold
  | @readFails q ino busy hq =>
      cases hself rfl hp with
      | inl hnew => exact Or.inl (by rw [← hnew.1, hq]; exact hnew.2)
      | inr hold => exact Or.inl hold
  | unlinks q hq hr => exact Or.inl hp
  | opens q hq he => exact Or.inl ((hself rfl hp).resolve_left fun h => by cases h.2)
  | creates q hq he => exact Or.inl ((hself rfl hp).resolve_left fun h => by cases h.2)
  | locks q hq ho => exact Or.inl ((hself rfl hp).resolve_left fun h => by cases h.2)
  | errs q hq => exact Or.inl ((hself rfl hp).resolve_left fun h => by cases h.2)
  | clears q hq => exact Or.inl ((hself rfl hp).resolve_left fun h => by cases h.2)
  | clearFails q hq => exact Or.inl ((hself rfl hp).resolve_left fun h => by cases h.2)
  | records q hq => exact Or.inl ((hself rfl hp).resolve_left fun h => by cases h.2)
  | recordFails q hq => exact Or.inl ((hself rfl hp).resolve_left fun h => by cases h.2)
  | ends q => exact Or.inl ((hself rfl hp).resolve_left fun h => by cases h.2)

/-- **A lock is refused as taken only when another process at the entry holds it.** -/
theorem busy_of_run (h₀ : Initial s₀) (hrun : Run c s₀ s) (hc : ∀ e, ¬c.removes e) {p : Proc}
    (hp : (s.phase p).busy = true) :
    ∃ q s', Run c s₀ s' ∧ Run c s' s ∧ q ≠ p ∧ c.place q = c.place p ∧ (s'.phase q).holds ≠ none := by
  induction hrun with
  | refl =>
      rw [h₀.phase] at hp
      cases hp
  | @tail t s hbefore hs ih =>
      have hlast := Relation.ReflTransGen.single hs
      cases hs.busy hp with
      | inl hold =>
          obtain ⟨q, u, hu, hut, hqp, hplace, hholds⟩ := ih hold
          exact ⟨q, u, hu, hut.trans hlast, hqp, hplace, hholds⟩
      | inr hnew =>
          obtain ⟨q, ino, hopened, howner⟩ := hnew
          have h := inv_of_run h₀ hbefore
          have hholds := (h.owner q ino).mp howner
          have hentry := h.kept p ino (hc _) (by rw [hopened]; rfl)
          refine ⟨q, t, hbefore, hlast, ?_, h.home q _ ino hentry (Phase.file_of_holds hholds), ?_⟩
          · rintro rfl
            rw [hopened] at hholds
            cases hholds
          · rw [hholds]
            exact fun hn => by cases hn

end McapCatalog.LockFile
