import Mathlib.Data.List.Basic
import Mathlib.Data.List.TakeWhile
import Mathlib.Data.Nat.Init

/-!
# Anchored templates of literals and greedy groups

The regular expressions of the form `^lit(class+suffix)lit(class+suffix)...$`: a fixed sequence of literals
and capturing groups, each group one greedy run of a character class followed by a literal suffix.  The
matcher is the backtracking one: a group first takes the longest run its class allows and gives characters
back one at a time until the rest of the template matches.

* `Piece`, `run` — the pieces and the matcher, returning the captured groups;
* `render` — the text a template stands for when its groups are filled in;
* `run_render` — **what a match says**: the input is the rendered template followed by an accepted ending;
* `Fits`, `run_fits`, `run_complete` — what can be captured, and that backtracking finds a match wherever there is one.

The alphabet and the end condition are parameters; nothing here names a particular grammar.
-/

namespace McapCatalog.GreedyTemplate

variable {α : Type}

/-- One piece of a template: a literal, or a capturing group `(class+ suffix)`. -/
inductive Piece (α : Type) where
  | lit (text : List α)
  | group (ok : α → Bool) (suffix : List α)

/-- Try `k n`, `k (n-1)`, ..., `k 1` and keep the first success. -/
def longest {β : Type} (k : ℕ → Option β) : ℕ → Option β
  | 0 => none
  | n + 1 =>
    match k (n + 1) with
    | some b => some b
    | none => longest k n

theorem longest_eq_some {β : Type} {k : ℕ → Option β} {n : ℕ} {b : β} (h : longest k n = some b) :
    ∃ m, 0 < m ∧ m ≤ n ∧ k m = some b := by
  induction n with
  | zero => exact absurd h (by simp [longest])
  | succ n ih =>
      unfold longest at h
      split at h
      · rename_i b' hb
        exact ⟨n + 1, Nat.succ_pos _, Nat.le_refl _, by rw [hb]; exact h⟩
      · obtain ⟨m, hm, hle, hk⟩ := ih h
        exact ⟨m, hm, Nat.le_succ_of_le hle, hk⟩

variable [DecidableEq α]

/-- Match the pieces at the front of the input; `atEnd` is the end anchor. -/
def run (atEnd : List α → Bool) : List (Piece α) → List α → Option (List (List α))
  | [], s => if atEnd s then some [] else none
  | .lit text :: ps, s => if text.isPrefixOf s then run atEnd ps (s.drop text.length) else none
  | .group ok suffix :: ps, s =>
    longest (fun n =>
      if suffix.isPrefixOf (s.drop n) then
        (run atEnd ps ((s.drop n).drop suffix.length)).map fun caps => (s.take n ++ suffix) :: caps
      else none) (s.takeWhile ok).length

/-- The text of a template with its groups filled in. -/
def render : List (Piece α) → List (List α) → List α
  | [], _ => []
  | .lit text :: ps, caps => text ++ render ps caps
  | .group _ _ :: ps, [] => render ps []
  | .group _ _ :: ps, c :: caps => c ++ render ps caps

/-- How many groups a template captures. -/
def groups : List (Piece α) → ℕ
  | [] => 0
  | .lit _ :: ps => groups ps
  | .group _ _ :: ps => groups ps + 1

omit [DecidableEq α] in
theorem drop_of_isPrefixOf [DecidableEq α] {p s : List α} (h : p.isPrefixOf s = true) :
    p ++ s.drop p.length = s := by
  obtain ⟨t, rfl⟩ := List.isPrefixOf_iff_prefix.mp h
  rw [List.drop_left]

/-- **What a match says.**  One capture per group, and the input is the rendered template followed by an
ending the anchor accepts. -/
theorem run_render (atEnd : List α → Bool) (ps : List (Piece α)) (s : List α) (caps : List (List α))
    (h : run atEnd ps s = some caps) :
    caps.length = groups ps ∧ ∃ tail, atEnd tail = true ∧ s = render ps caps ++ tail := by
  induction ps generalizing s caps with
  | nil =>
      unfold run at h
      split at h
      · rename_i hend
        cases h
        exact ⟨rfl, s, hend, rfl⟩
      · exact absurd h (by simp)
  | cons p ps ih =>
      cases p with
      | lit text =>
          unfold run at h
          split at h
          · rename_i hpre
            obtain ⟨hlen, tail, hend, hs⟩ := ih _ _ h
            refine ⟨hlen, tail, hend, ?_⟩
            rw [render, List.append_assoc, ← hs, drop_of_isPrefixOf hpre]
          · exact absurd h (by simp)
      | group ok suffix =>
          unfold run at h
          obtain ⟨n, _, _, hk⟩ := longest_eq_some h
          split at hk
          · rename_i hpre
            obtain ⟨caps', hrun, rfl⟩ := Option.map_eq_some_iff.mp hk
            obtain ⟨hlen, tail, hend, hs⟩ := ih _ _ hrun
            refine ⟨by rw [List.length_cons, hlen, groups], tail, hend, ?_⟩
            rw [render, List.append_assoc, List.append_assoc, ← hs, drop_of_isPrefixOf hpre,
              List.take_append_drop]
          · exact absurd hk (by simp)

/-! ### Backtracking is complete -/

/-- The captures fill the groups in: each is a non-empty run of its class and the suffix. -/
def Fits : List (Piece α) → List (List α) → Prop
  | [], caps => caps = []
  | .lit _ :: ps, caps => Fits ps caps
  | .group _ _ :: _, [] => False
  | .group ok suffix :: ps, c :: caps => (∃ body, body ≠ [] ∧ (∀ x ∈ body, ok x = true) ∧ c = body ++ suffix) ∧ Fits ps caps

theorem longest_isSome {β : Type} {k : ℕ → Option β} {m n : ℕ} (hm : 0 < m) (hle : m ≤ n) (hk : (k m).isSome = true) :
    (longest k n).isSome = true := by
  induction n with
  | zero => omega
  | succ n ih =>
      rw [longest]
      split
      · rfl
      · rename_i hnone
        by_cases heq : m = n + 1
        · rw [heq, hnone] at hk
          cases hk
        · exact ih (by omega)

/-- **Every match captures what fits.** -/
theorem run_fits (atEnd : List α → Bool) (ps : List (Piece α)) (s : List α) (caps : List (List α))
    (h : run atEnd ps s = some caps) : Fits ps caps := by
  induction ps generalizing s caps with
  | nil =>
      rw [run] at h
      split at h
      · cases h
        rfl
      · cases h
  | cons p ps ih =>
      cases p with
      | lit text =>
          rw [run] at h
          split at h
          · exact ih _ _ h
          · cases h
      | group ok suffix =>
          rw [run] at h
          obtain ⟨n, hpos, hle, hk⟩ := longest_eq_some h
          split at hk
          · obtain ⟨caps', hrun, rfl⟩ := Option.map_eq_some_iff.mp hk
            refine ⟨⟨s.take n, ?_, fun x hx => ?_, rfl⟩, ih _ _ hrun⟩
            · have hlen := (List.takeWhile_prefix ok (l := s)).length_le
              rw [Ne, List.take_eq_nil_iff]
              rintro (hzero | hnil)
              · omega
              · rw [hnil] at hle
                exact absurd hle (Nat.not_le_of_lt hpos)
            · have htaken : s.take n = (s.takeWhile ok).take n := by
                rw [List.prefix_iff_eq_take.mp (List.takeWhile_prefix ok), List.take_take, Nat.min_eq_left hle]
              rw [htaken] at hx
              exact List.mem_takeWhile_imp (List.mem_of_mem_take hx)
          · cases hk

/-- **Backtracking finds a match** wherever the captures fit and the anchor accepts the rest. -/
theorem run_complete (atEnd : List α → Bool) (ps : List (Piece α)) (caps : List (List α)) (tail : List α)
    (hfits : Fits ps caps) (hend : atEnd tail = true) : (run atEnd ps (render ps caps ++ tail)).isSome = true := by
  induction ps generalizing caps with
  | nil =>
      rw [run, render, List.nil_append, if_pos hend]
      rfl
  | cons p ps ih =>
      cases p with
      | lit text =>
          rw [run, render, List.append_assoc, if_pos (List.isPrefixOf_iff_prefix.mpr (List.prefix_append _ _)), List.drop_left]
          exact ih caps hfits
      | group ok suffix =>
          cases caps with
          | nil => exact absurd hfits id
          | cons c caps =>
              obtain ⟨⟨body, hne, hok, rfl⟩, hrest⟩ := hfits
              rw [run, render, List.append_assoc, List.append_assoc]
              refine longest_isSome (m := body.length) (List.length_pos_iff.mpr hne) ?_ ?_
              · rw [List.takeWhile_append_of_pos hok, List.length_append]
                exact Nat.le_add_right _ _
              · rw [List.drop_left, if_pos (List.isPrefixOf_iff_prefix.mpr (List.prefix_append _ _)), List.drop_left,
                  Option.isSome_map]
                exact ih caps hrest

end McapCatalog.GreedyTemplate
