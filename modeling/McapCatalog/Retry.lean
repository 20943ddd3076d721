import McapCatalog.Library.SurvivingState
import McapCatalog.PyError
import Mathlib.Algebra.Order.Ring.Rat
import Mathlib.Data.List.Range
import Mathlib.Tactic.Linarith

/-!
# Retries with backoff

`retry.py`: a call is tried again after a transient exception, after delays that double up to a cap; delays are exact here.

* `Backoff`, `tries`, `retryWith` — the parameters, the loop with what stands after it, and `retry_with`, around any call;
* `tries_after` — **nothing that stands after the loop is reached**, if there is an attempt at all;
* `Log`, `Script` — what a run has done, and what the call and `should_stop` answer at each turn;
* `Script.Ends` — the attempt is the last one;
* `retryWith_exact` — **the first attempt that can be the last one is, and the sleeps before it are the closed schedule.**
-/

namespace McapCatalog.Retry

open McapCatalog.PyError
open McapCatalog.SurvivingState McapCatalog.SurvivingState.Comp

/-- `attempts`, `base_delay` and `max_delay`. -/
structure Backoff where
  attempts : ℕ
  baseDelay : ℚ
  maxDelay : ℚ

/-- `ATTEMPTS`, `BASE_DELAY` and `MAX_DELAY`. -/
def Backoff.standard : Backoff := ⟨6, 1 / 20, 4 / 5⟩

section Loop

variable {σ ε α : Type}

/-- `is_permanent is not None and is_permanent(e)`. -/
def permanent (isPermanent : Option (ε → Bool)) (e : ε) : Bool := isPermanent.elim false fun p => p e

/-- `should_stop is not None and should_stop()`. -/
def stopping (shouldStop : Option (Comp σ ε Bool)) : Comp σ ε Bool := shouldStop.elim (pure false) id

/-- The loop over what is left of `range(attempts)`, and then `after`. -/
def tries (b : Backoff) (fn : Comp σ ε α) (isPermanent : Option (ε → Bool)) (shouldStop : Option (Comp σ ε Bool))
    (sleep : ℚ → Comp σ ε Unit) (after : Option ε → Comp σ ε α) : List ℕ → ℚ → Option ε → Comp σ ε α
  | [], _, lastExc => after lastExc
  | i :: rest, delay, _ => do
    match (← attempt fn) with
    | .ok a => pure a
    | .error e =>
      if permanent isPermanent e then raise e
      else if i = b.attempts - 1 then raise e
      else do
        if (← stopping shouldStop) then raise e
        else do
          sleep (min delay b.maxDelay)
          tries b fn isPermanent shouldStop sleep after rest (min (delay * 2) b.maxDelay) (some e)

/-- `retry_with`. -/
def retryWith (b : Backoff) (fn : Comp σ ε α) (isPermanent : Option (ε → Bool)) (shouldStop : Option (Comp σ ε Bool))
    (sleep : ℚ → Comp σ ε Unit) (assertionError : ε) : Comp σ ε α :=
  tries b fn isPermanent shouldStop sleep
    (fun lastExc => match lastExc with
      | none => raise assertionError
      | some e => raise e)
    (List.range b.attempts) b.baseDelay none

variable {b : Backoff} {fn : Comp σ ε α} {isPermanent : Option (ε → Bool)} {shouldStop : Option (Comp σ ε Bool)}
  {sleep : ℚ → Comp σ ε Unit} {after : Option ε → Comp σ ε α} {s s' : σ}

/-! ### One attempt -/

/-- An attempt that returns ends the loop. -/
theorem tries_of_ok {i : ℕ} {rest : List ℕ} {delay : ℚ} {lastExc : Option ε} {a : α} (h : fn s = (.ok a, s')) :
    tries b fn isPermanent shouldStop sleep after (i :: rest) delay lastExc s = (.ok a, s') := by
  rw [tries, bind_of_ok (attempt_apply fn s), h]
  rfl

/-- An attempt that raises: what comes next. -/
theorem tries_of_error {i : ℕ} {rest : List ℕ} {delay : ℚ} {lastExc : Option ε} {e : ε} (h : fn s = (.error e, s')) :
    tries b fn isPermanent shouldStop sleep after (i :: rest) delay lastExc s =
      (if permanent isPermanent e then raise e
      else if i = b.attempts - 1 then raise e
      else do
        if (← stopping shouldStop) then raise e
        else do
          sleep (min delay b.maxDelay)
          tries b fn isPermanent shouldStop sleep after rest (min (delay * 2) b.maxDelay) (some e)) s' := by
  rw [tries, bind_of_ok (attempt_apply fn s), h]

/-- **A first attempt that returns** is all that happens. -/
theorem retryWith_of_ok {a : α} {assertionError : ε} (hattempts : 1 ≤ b.attempts) (h : fn s = (.ok a, s')) :
    retryWith b fn isPermanent shouldStop sleep assertionError s = (.ok a, s') := by
  obtain ⟨n, hn⟩ := Nat.exists_eq_add_of_le' hattempts
  rw [retryWith, hn, List.range_succ_eq_map]
  exact tries_of_ok h

/-- **What stands after the loop is not reached** from an attempt on: the last one ends it. -/
theorem tries_after (after' : Option ε → Comp σ ε α) {i m : ℕ} (him : i + (m + 1) = b.attempts) (delay : ℚ)
    (lastExc lastExc' : Option ε) :
    tries b fn isPermanent shouldStop sleep after (List.range' i (m + 1)) delay lastExc =
      tries b fn isPermanent shouldStop sleep after' (List.range' i (m + 1)) delay lastExc' := by
  induction m generalizing i delay lastExc lastExc' with
  | zero =>
      funext s
      rw [List.range'_succ]
      rcases hrun : fn s with ⟨out, s'⟩
      cases out with
      | ok a => rw [tries_of_ok hrun, tries_of_ok hrun]
      | error e =>
          have hlast : i = b.attempts - 1 := by omega
          rw [tries_of_error hrun, tries_of_error hrun, if_pos hlast, if_pos hlast]
  | succ m ih =>
      funext s
      rw [List.range'_succ]
      rcases hrun : fn s with ⟨out, s'⟩
      cases out with
      | ok a => rw [tries_of_ok hrun, tries_of_ok hrun]
      | error e =>
          have hrest : (i + 1) + (m + 1) = b.attempts := by omega
          rw [tries_of_error hrun, tries_of_error hrun, ih hrest (min (delay * 2) b.maxDelay) (some e) (some e)]

end Loop

/-! ### Scripted runs -/

/-- What a run has done: the calls of `fn` and of `should_stop`, and the sleeps. -/
structure Log where
  calls : ℕ
  polls : ℕ
  slept : List ℚ

/-- What `fn` comes to at each call, and what `should_stop` answers at each of its own. -/
structure Script (ε α : Type) where
  outcomes : ℕ → Except ε α
  isPermanent : Option (ε → Bool)
  shouldStop : Option (ℕ → Bool)

namespace Script

variable {ε α : Type}

/-- `fn`. -/
def fn (script : Script ε α) : Comp Log ε α := fun log => (script.outcomes log.calls, { log with calls := log.calls + 1 })

/-- `should_stop`. -/
def poll (stop : ℕ → Bool) : Comp Log ε Bool := fun log => (.ok (stop log.polls), { log with polls := log.polls + 1 })

/-- `sleep`. -/
def sleep (delay : ℚ) : Comp Log ε Unit := fun log => (.ok (), { log with slept := log.slept ++ [delay] })

/-- `retry_with` on the script. -/
def run (script : Script ε α) (b : Backoff) (assertionError : ε) : Comp Log ε α :=
  retryWith b script.fn script.isPermanent (script.shouldStop.map poll) sleep assertionError

/-- The `n`-th attempt can be the last one: it returns, its exception is permanent, `should_stop` answers yes after it, or it
is the last that is allowed. -/
def Ends (script : Script ε α) (b : Backoff) (n : ℕ) : Prop :=
  (∃ a, script.outcomes (n - 1) = .ok a) ∨
    (∃ e, script.outcomes (n - 1) = .error e ∧
      (permanent script.isPermanent e = true ∨ ∃ stop, script.shouldStop = some stop ∧ stop (n - 1) = true)) ∨
    n = b.attempts

/-- The `k`-th sleep. -/
def backoff (b : Backoff) (k : ℕ) : ℚ := min (b.baseDelay * 2 ^ k) b.maxDelay

/-- Nothing has happened. -/
def start : Log := ⟨0, 0, []⟩

section Runs

variable {script : Script ε α} {b : Backoff} {after : Option ε → Comp Log ε α}

/-- **Doubling under the cap**: it makes no difference to the schedule that the delay was capped before. -/
theorem backoff_succ {delay : ℚ} {k : ℕ} (hmax : 0 ≤ b.maxDelay) (h : min delay b.maxDelay = backoff b k) :
    min (min (delay * 2) b.maxDelay) b.maxDelay = backoff b (k + 1) := by
  rw [backoff] at h
  rw [backoff, min_assoc, min_self, pow_succ, ← mul_assoc]
  rcases le_total (b.baseDelay * 2 ^ k) b.maxDelay with hbelow | habove
  · rw [min_eq_left hbelow] at h
    rcases le_total delay b.maxDelay with hdelay | hdelay
    · rw [min_eq_left hdelay] at h
      rw [h]
    · rw [min_eq_right hdelay] at h
      rw [← h, min_eq_right (by linarith), min_eq_right (by linarith)]
  · rw [min_eq_right habove] at h
    have hdelay : b.maxDelay ≤ delay := min_eq_right_iff.mp h
    rw [min_eq_right (by linarith), min_eq_right (by linarith)]

/-- The poll after a transient exception: no answer, or that of its turn. -/
theorem stopping_apply {calls polls k : ℕ} {slept : List ℚ} (hpolls : ∀ stop, script.shouldStop = some stop → polls = k) :
    ∃ answer polls', (stopping (script.shouldStop.map poll) ⟨calls, polls, slept⟩ : Except ε Bool × Log) =
        (.ok answer, ⟨calls, polls', slept⟩) ∧
      (∀ stop, script.shouldStop = some stop → polls' = k + 1) ∧
        (answer = true ↔ ∃ stop, script.shouldStop = some stop ∧ stop k = true) := by
  cases hstop : script.shouldStop with
  | none =>
      refine ⟨false, polls, rfl, fun _ h => (by cases h), ?_⟩
      simp
  | some stop =>
      have hk := hpolls stop hstop
      refine ⟨stop polls, polls + 1, rfl, fun _ _ => by rw [hk], ?_⟩
      rw [hk]
      simp

/-- **An attempt that can be the last one is.** -/
theorem tries_of_ends (after : Option ε → Comp Log ε α) (rest : List ℕ) (delay : ℚ) (lastExc : Option ε) {i : ℕ} {log : Log}
    (hcalls : log.calls = i) (hpolls : ∀ stop, script.shouldStop = some stop → log.polls = i) (hends : script.Ends b (i + 1)) :
    ∃ polls, tries b script.fn script.isPermanent (script.shouldStop.map poll) sleep after (i :: rest) delay lastExc log =
      (script.outcomes i, ⟨i + 1, polls, log.slept⟩) := by
  have hfn : script.fn log = (script.outcomes i, { log with calls := i + 1 }) := by rw [fn, hcalls]
  cases hout : script.outcomes i with
  | ok a =>
      rw [hout] at hfn
      exact ⟨log.polls, tries_of_ok hfn⟩
  | error e =>
      rw [hout] at hfn
      rw [tries_of_error hfn]
      by_cases hpermanent : permanent script.isPermanent e = true
      · rw [if_pos hpermanent]
        exact ⟨log.polls, rfl⟩
      · rw [if_neg hpermanent]
        by_cases hlast : i = b.attempts - 1
        · rw [if_pos hlast]
          exact ⟨log.polls, rfl⟩
        · rw [if_neg hlast]
          have hstop : ∃ stop, script.shouldStop = some stop ∧ stop i = true := by
            rcases hends with ⟨a, hok⟩ | ⟨e', herror, hpermanent' | hstop⟩ | hattempts
            · rw [Nat.add_sub_cancel, hout] at hok
              cases hok
            · rw [Nat.add_sub_cancel, hout] at herror
              cases herror
              exact absurd hpermanent' hpermanent
            · exact hstop
            · omega
          obtain ⟨answer, polls, hpoll, _, hanswer⟩ := stopping_apply hpolls
          rw [bind_of_ok hpoll, if_pos (hanswer.mpr hstop)]
          exact ⟨polls, rfl⟩

/-- **Any other is followed by a sleep and the next one.** -/
theorem tries_of_not_ends (after : Option ε → Comp Log ε α) (rest : List ℕ) (delay : ℚ) (lastExc : Option ε) {i : ℕ}
    {log : Log} (hi : i < b.attempts) (hcalls : log.calls = i)
    (hpolls : ∀ stop, script.shouldStop = some stop → log.polls = i) (hends : ¬script.Ends b (i + 1)) :
    ∃ e polls, (∀ stop, script.shouldStop = some stop → polls = i + 1) ∧
      tries b script.fn script.isPermanent (script.shouldStop.map poll) sleep after (i :: rest) delay lastExc log =
        tries b script.fn script.isPermanent (script.shouldStop.map poll) sleep after rest (min (delay * 2) b.maxDelay) (some e)
          ⟨i + 1, polls, log.slept ++ [min delay b.maxDelay]⟩ := by
  have hfn : script.fn log = (script.outcomes i, { log with calls := i + 1 }) := by rw [fn, hcalls]
  rw [Ends, Nat.add_sub_cancel] at hends
  cases hout : script.outcomes i with
  | ok a => exact absurd (Or.inl ⟨a, hout⟩) hends
  | error e =>
      have hpermanent : ¬permanent script.isPermanent e = true := fun h => hends (Or.inr (Or.inl ⟨e, hout, Or.inl h⟩))
      have hlast : ¬i = b.attempts - 1 := fun h => hends (Or.inr (Or.inr (by omega)))
      rw [hout] at hfn
      rw [tries_of_error hfn, if_neg hpermanent, if_neg hlast]
      obtain ⟨answer, polls, hpoll, hpolls', hanswer⟩ := stopping_apply hpolls
      have hgoesOn : ¬answer = true := fun h => hends (Or.inr (Or.inl ⟨e, hout, Or.inr (hanswer.mp h)⟩))
      rw [bind_of_ok hpoll, if_neg hgoesOn]
      exact ⟨e, polls, hpolls', rfl⟩

/-- **The loop from an attempt on**: it ends with the first one that can be the last, and sleeps the schedule before it. -/
theorem tries_exact {i m : ℕ} (hmax : 0 ≤ b.maxDelay) (him : i + (m + 1) = b.attempts) {delay : ℚ}
    (hdelay : min delay b.maxDelay = backoff b i) (lastExc : Option ε) (log : Log) (hcalls : log.calls = i)
    (hpolls : ∀ stop, script.shouldStop = some stop → log.polls = i) :
    ∃ n polls, i < n ∧ script.Ends b n ∧ (∀ j, i < j → j < n → ¬script.Ends b j) ∧
      tries b script.fn script.isPermanent (script.shouldStop.map poll) sleep after (List.range' i (m + 1)) delay lastExc log =
        (script.outcomes (n - 1), ⟨n, polls, log.slept ++ (List.range' i (n - 1 - i)).map (backoff b)⟩) := by
  induction m generalizing i delay lastExc log with
  | zero =>
      have hends : script.Ends b (i + 1) := Or.inr (Or.inr him)
      obtain ⟨polls, hrun⟩ := tries_of_ends after [] delay lastExc hcalls hpolls hends
      refine ⟨i + 1, polls, Nat.lt_succ_self i, hends, fun j hj hlt => by omega, ?_⟩
      rw [Nat.add_sub_cancel, Nat.sub_self, List.range'_zero, List.map_nil, List.append_nil]
      exact hrun
  | succ m ih =>
      rw [List.range'_succ]
      by_cases hends : script.Ends b (i + 1)
      · obtain ⟨polls, hrun⟩ := tries_of_ends after (List.range' (i + 1) (m + 1)) delay lastExc hcalls hpolls hends
        refine ⟨i + 1, polls, Nat.lt_succ_self i, hends, fun j hj hlt => by omega, ?_⟩
        rw [Nat.add_sub_cancel, Nat.sub_self, List.range'_zero, List.map_nil, List.append_nil]
        exact hrun
      · obtain ⟨e, polls, hpolls', hrun⟩ := tries_of_not_ends after (List.range' (i + 1) (m + 1)) delay lastExc
          (by omega) hcalls hpolls hends
        have hnext : (i + 1) + (m + 1) = b.attempts := by omega
        obtain ⟨n, polls', hlt, hn, hfirst, hexact⟩ := ih hnext (backoff_succ hmax hdelay) (some e)
          ⟨i + 1, polls, log.slept ++ [min delay b.maxDelay]⟩ rfl hpolls'
        refine ⟨n, polls', by omega, hn, fun j hj hjn => ?_, ?_⟩
        · by_cases hsame : j = i + 1
          · rw [hsame]
            exact hends
          · exact hfirst j (by omega) hjn
        · have hlen : n - 1 - i = (n - 1 - (i + 1)) + 1 := by omega
          rw [hrun, hexact, hlen, List.range'_succ, List.map_cons, hdelay, List.append_assoc]
          rfl

/-- **`retry_with`**: with `n` the first attempt that can be the last one, it calls `fn` exactly `n` times, comes to what the
`n`-th call came to, and sleeps `n - 1` times, the `k`-th time `min(base_delay * 2 ** k, max_delay)`; and what stands after the
loop is never reached. -/
theorem retryWith_exact (script : Script ε α) (b : Backoff) (assertionError : ε) (hattempts : 1 ≤ b.attempts)
    (hmax : 0 ≤ b.maxDelay) :
    (∃ n polls, 1 ≤ n ∧ script.Ends b n ∧ (∀ j, 1 ≤ j → j < n → ¬script.Ends b j) ∧
      script.run b assertionError start =
        (script.outcomes (n - 1), ⟨n, polls, (List.range (n - 1)).map fun k => min (b.baseDelay * 2 ^ k) b.maxDelay⟩)) ∧
      ∀ after, tries b script.fn script.isPermanent (script.shouldStop.map poll) sleep after (List.range b.attempts) b.baseDelay
        none = script.run b assertionError := by
  obtain ⟨m, hm⟩ := Nat.exists_eq_add_of_le' hattempts
  have hrange : List.range b.attempts = List.range' 0 (m + 1) := by rw [hm, List.range_eq_range']
  have hzero : 0 + (m + 1) = b.attempts := by omega
  have hdelay : min b.baseDelay b.maxDelay = backoff b 0 := by rw [backoff, pow_zero, mul_one]
  refine ⟨?_, fun after => ?_⟩
  · obtain ⟨n, polls, hlt, hn, hfirst, hexact⟩ := tries_exact hmax hzero hdelay none start rfl fun _ _ => rfl
    refine ⟨n, polls, hlt, hn, hfirst, ?_⟩
    rw [run, retryWith, hrange, hexact, Nat.sub_zero, List.range_eq_range']
    rfl
  · rw [run, retryWith, hrange]
    exact tries_after _ hzero _ _ _

end Runs

/-- A call that fails twice. -/
def flaky : Script PyErr ℕ where
  outcomes k := if k < 2 then .error (.valueError []) else .ok k
  isPermanent := none
  shouldStop := some fun _ => false

theorem retryWith_exact_flaky :
    ∃ n polls, 1 ≤ n ∧ flaky.Ends Backoff.standard n ∧ (∀ j, 1 ≤ j → j < n → ¬flaky.Ends Backoff.standard j) ∧
      flaky.run Backoff.standard (.typeError []) start =
        (flaky.outcomes (n - 1), ⟨n, polls, (List.range (n - 1)).map fun k => min (1 / 20 * 2 ^ k) (4 / 5)⟩) := by
  have hmax : 0 ≤ Backoff.standard.maxDelay := by
    rw [Backoff.standard]
    norm_num
  exact (retryWith_exact flaky Backoff.standard (.typeError []) (by decide) hmax).1

/-- The default schedule, when every attempt fails. -/
example : ((⟨fun _ => .error 0, none, none⟩ : Script ℕ ℕ).run Backoff.standard 1 start).2.slept =
    [1 / 20, 1 / 10, 1 / 5, 2 / 5, 4 / 5] := by
  decide +kernel

end Script

end McapCatalog.Retry
