import Mathlib.Data.List.Basic
import Mathlib.Data.List.Nodup
import Mathlib.Order.Basic

/-!
# Rowid tables: an integer primary key beside a unique key

A relational table whose rows carry an integer id handed out by the engine and a second, unique key chosen
by the writer (a name, a tuple of foreign ids, a hash), with the remaining columns as a payload:

* `Table κ ρ` — the rows in id order; the two constraints are **fields**, so a table that breaks the primary
  key or the unique key cannot be written down;
* `nextId` — the engine's rule for an insert without an explicit id: one more than the largest id present;
* `find`/`get` — the two index lookups, `idOf`/`keyOf` their projections, inverse to each other
  (`idOf_eq_some_iff`);
* `insert`, `insertOrIgnore`, `upsert`, `setVal`, `filter` — the statements, each with its lookup lemmas;
* `mapVals` — the table with part of each payload forgotten: every statement commutes with it;
* `Extends` — a table that only grew: every id keeps its key (`Extends.get`), every key its id.

Nothing here names a particular schema.
-/

namespace McapCatalog.RowidTable

/-- A stored row: the engine's id, the unique key, the other columns. -/
structure Row (κ ρ : Type) where
  id : ℕ
  key : κ
  val : ρ
  deriving DecidableEq

/-- A table in id order.  `idOrder` is the primary key, `uniqueKey` the second constraint. -/
structure Table (κ ρ : Type) where
  rows : List (Row κ ρ)
  idOrder : rows.Pairwise fun a b => a.id < b.id
  uniqueKey : rows.Pairwise fun a b => a.key ≠ b.key

namespace Table

variable {κ ρ : Type}

/-- The empty table. -/
def empty : Table κ ρ := ⟨[], List.Pairwise.nil, List.Pairwise.nil⟩

@[ext] theorem ext {t t' : Table κ ρ} (h : t.rows = t'.rows) : t = t' := by
  cases t; cases t'; cases h; rfl

/-- One more than the largest id present. -/
def nextId (t : Table κ ρ) : ℕ := (t.rows.map Row.id).foldr max 0 + 1

theorem id_lt_nextId (t : Table κ ρ) {r : Row κ ρ} (hr : r ∈ t.rows) : r.id < t.nextId := by
  have h : ∀ (l : List ℕ) (n : ℕ), n ∈ l → n ≤ l.foldr max 0 := by
    intro l n hn
    induction l with
    | nil => exact absurd hn List.not_mem_nil
    | cons a as ih =>
        rcases List.mem_cons.mp hn with rfl | hn
        · exact Nat.le_max_left _ _
        · exact Nat.le_trans (ih hn) (Nat.le_max_right _ _)
  exact Nat.lt_succ_of_le (h _ _ (List.mem_map_of_mem hr))

/-- Two rows of one table with one id are one row. -/
theorem eq_of_id_eq (t : Table κ ρ) {r r' : Row κ ρ} (hr : r ∈ t.rows) (hr' : r' ∈ t.rows)
    (h : r.id = r'.id) : r = r' := by
  by_contra hne
  have hp := List.pairwise_iff_getElem.mp t.idOrder
  obtain ⟨i, hi, rfl⟩ := List.getElem_of_mem hr
  obtain ⟨j, hj, rfl⟩ := List.getElem_of_mem hr'
  rcases Nat.lt_trichotomy i j with hij | rfl | hij
  · have := hp i j hi hj hij; omega
  · exact hne rfl
  · have := hp j i hj hi hij; omega

/-- Two rows of one table with one key are one row. -/
theorem eq_of_key_eq (t : Table κ ρ) {r r' : Row κ ρ} (hr : r ∈ t.rows) (hr' : r' ∈ t.rows)
    (h : r.key = r'.key) : r = r' := by
  by_contra hne
  have hp := List.pairwise_iff_getElem.mp t.uniqueKey
  obtain ⟨i, hi, rfl⟩ := List.getElem_of_mem hr
  obtain ⟨j, hj, rfl⟩ := List.getElem_of_mem hr'
  rcases Nat.lt_trichotomy i j with hij | rfl | hij
  · exact hp i j hi hj hij h
  · exact hne rfl
  · exact hp j i hj hi hij h.symm

/-! ### The two index lookups -/

/-- `SELECT ... WHERE id = i`. -/
def get (t : Table κ ρ) (i : ℕ) : Option (Row κ ρ) := t.rows.find? fun r => r.id = i

theorem get_eq_some_iff {t : Table κ ρ} {i : ℕ} {r : Row κ ρ} :
    t.get i = some r ↔ r ∈ t.rows ∧ r.id = i := by
  constructor
  · intro h
    exact ⟨List.mem_of_find?_eq_some h, by simpa using List.find?_some h⟩
  · rintro ⟨hr, rfl⟩
    rcases hg : t.get r.id with _ | r'
    · have := List.find?_eq_none.mp hg r hr
      simp at this
    · have hm := List.mem_of_find?_eq_some hg
      have hid : r'.id = r.id := by simpa using List.find?_some hg
      rw [t.eq_of_id_eq hm hr hid]

theorem get_eq_none_iff {t : Table κ ρ} {i : ℕ} : t.get i = none ↔ ∀ r ∈ t.rows, r.id ≠ i := by
  simp [get, List.find?_eq_none]

theorem get_nextId (t : Table κ ρ) : t.get t.nextId = none :=
  get_eq_none_iff.mpr fun _ hr => Nat.ne_of_lt (t.id_lt_nextId hr)

theorem get_of_mem {t : Table κ ρ} {r : Row κ ρ} (hr : r ∈ t.rows) : t.get r.id = some r :=
  get_eq_some_iff.mpr ⟨hr, rfl⟩

/-- The key stored under an id. -/
def keyOf (t : Table κ ρ) (i : ℕ) : Option κ := (t.get i).map Row.key

section Keyed

variable [DecidableEq κ]

/-- `SELECT ... WHERE key = k`. -/
def find (t : Table κ ρ) (k : κ) : Option (Row κ ρ) := t.rows.find? fun r => r.key = k

theorem find_eq_some_iff {t : Table κ ρ} {k : κ} {r : Row κ ρ} :
    t.find k = some r ↔ r ∈ t.rows ∧ r.key = k := by
  constructor
  · intro h
    exact ⟨List.mem_of_find?_eq_some h, by simpa using List.find?_some h⟩
  · rintro ⟨hr, rfl⟩
    rcases hg : t.find r.key with _ | r'
    · have := List.find?_eq_none.mp hg r hr
      simp at this
    · have hm := List.mem_of_find?_eq_some hg
      have hk : r'.key = r.key := by simpa using List.find?_some hg
      rw [t.eq_of_key_eq hm hr hk]

theorem find_eq_none_iff {t : Table κ ρ} {k : κ} : t.find k = none ↔ ∀ r ∈ t.rows, r.key ≠ k := by
  simp [find, List.find?_eq_none]

theorem find_of_mem {t : Table κ ρ} {r : Row κ ρ} (hr : r ∈ t.rows) : t.find r.key = some r :=
  find_eq_some_iff.mpr ⟨hr, rfl⟩

/-- The id stored under a key. -/
def idOf (t : Table κ ρ) (k : κ) : Option ℕ := (t.find k).map Row.id

/-- **The two indexes are inverse.** -/
theorem idOf_eq_some_iff {t : Table κ ρ} {k : κ} {i : ℕ} : t.idOf k = some i ↔ t.keyOf i = some k := by
  simp only [idOf, keyOf, Option.map_eq_some_iff, find_eq_some_iff, get_eq_some_iff]
  constructor
  · rintro ⟨r, ⟨hr, hk⟩, hi⟩; exact ⟨r, ⟨hr, hi⟩, hk⟩
  · rintro ⟨r, ⟨hr, hi⟩, hk⟩; exact ⟨r, ⟨hr, hk⟩, hi⟩

theorem idOf_injective {t : Table κ ρ} {k k' : κ} {i : ℕ} (h : t.idOf k = some i)
    (h' : t.idOf k' = some i) : k = k' := by
  rw [idOf_eq_some_iff] at h h'
  rw [h] at h'
  exact Option.some.inj h'

theorem idOf_eq_none_iff {t : Table κ ρ} {k : κ} : t.idOf k = none ↔ t.find k = none := by
  simp [idOf]

theorem idOf_of_mem {t : Table κ ρ} {r : Row κ ρ} (hr : r ∈ t.rows) : t.idOf r.key = some r.id := by
  rw [idOf, find_of_mem hr]; rfl

end Keyed

theorem keyOf_of_mem {t : Table κ ρ} {r : Row κ ρ} (hr : r ∈ t.rows) : t.keyOf r.id = some r.key := by
  rw [keyOf, get_of_mem hr]; rfl

/-! ### Growth -/

/-- `t'` is `t` with rows appended: no id lost its key, no key its id. -/
def Extends (t t' : Table κ ρ) : Prop := t.rows <+: t'.rows

theorem Extends.refl (t : Table κ ρ) : t.Extends t := List.prefix_refl _

theorem Extends.trans {a b c : Table κ ρ} (h : a.Extends b) (h' : b.Extends c) : a.Extends c :=
  List.IsPrefix.trans h h'

theorem Extends.mem {t t' : Table κ ρ} (h : t.Extends t') {r : Row κ ρ} (hr : r ∈ t.rows) :
    r ∈ t'.rows :=
  h.subset hr

theorem Extends.get {t t' : Table κ ρ} (h : t.Extends t') {i : ℕ} {r : Row κ ρ}
    (hr : t.get i = some r) : t'.get i = some r := by
  rw [get_eq_some_iff] at hr ⊢
  exact ⟨h.mem hr.1, hr.2⟩

theorem Extends.keyOf {t t' : Table κ ρ} (h : t.Extends t') {i : ℕ} {k : κ}
    (hk : t.keyOf i = some k) : t'.keyOf i = some k := by
  obtain ⟨r, hr, rfl⟩ := Option.map_eq_some_iff.mp hk
  rw [Table.keyOf, h.get hr]; rfl

theorem Extends.idOf [DecidableEq κ] {t t' : Table κ ρ} (h : t.Extends t') {k : κ} {i : ℕ}
    (hk : t.idOf k = some i) : t'.idOf k = some i := by
  rw [idOf_eq_some_iff] at hk ⊢
  exact h.keyOf hk

/-! ### Inserting -/

section Insert

variable [DecidableEq κ]

/-- Append a row under the next id; the key must be free. -/
def insert (t : Table κ ρ) (k : κ) (v : ρ) (h : t.find k = none) : Table κ ρ where
  rows := t.rows ++ [⟨t.nextId, k, v⟩]
  idOrder := by
    rw [List.pairwise_append]
    refine ⟨t.idOrder, List.pairwise_singleton _ _, ?_⟩
    intro a ha b hb
    rw [List.mem_singleton.mp hb]
    exact t.id_lt_nextId ha
  uniqueKey := by
    rw [List.pairwise_append]
    refine ⟨t.uniqueKey, List.pairwise_singleton _ _, ?_⟩
    intro a ha b hb
    rw [List.mem_singleton.mp hb]
    exact find_eq_none_iff.mp h a ha

/-- `INSERT OR IGNORE`: a taken key makes it a no-op. -/
def insertOrIgnore (t : Table κ ρ) (k : κ) (v : ρ) : Table κ ρ :=
  if h : t.find k = none then t.insert k v h else t

variable {t : Table κ ρ} {k : κ} {v : ρ}

theorem extends_insert (h : t.find k = none) : t.Extends (t.insert k v h) :=
  List.prefix_append _ _

theorem extends_insertOrIgnore : t.Extends (t.insertOrIgnore k v) := by
  unfold insertOrIgnore
  split
  · exact extends_insert _
  · exact Extends.refl t

theorem mem_insert (h : t.find k = none) {r : Row κ ρ} :
    r ∈ (t.insert k v h).rows ↔ r ∈ t.rows ∨ r = ⟨t.nextId, k, v⟩ := by
  simp [insert]

theorem find_insert (h : t.find k = none) (k' : κ) :
    (t.insert k v h).find k' = if k' = k then some ⟨t.nextId, k, v⟩ else t.find k' := by
  by_cases hk : k' = k
  · subst hk
    rw [if_pos rfl, find_eq_some_iff]
    exact ⟨(mem_insert h).mpr (Or.inr rfl), rfl⟩
  · rw [if_neg hk, find, insert, List.find?_append, ← find]
    simp [Ne.symm hk]

theorem idOf_insert (h : t.find k = none) (k' : κ) :
    (t.insert k v h).idOf k' = if k' = k then some t.nextId else t.idOf k' := by
  rw [idOf, find_insert]
  split <;> rfl

theorem get_insert (h : t.find k = none) (i : ℕ) :
    (t.insert k v h).get i = if i = t.nextId then some ⟨t.nextId, k, v⟩ else t.get i := by
  by_cases hi : i = t.nextId
  · subst hi
    rw [if_pos rfl, get_eq_some_iff]
    exact ⟨(mem_insert h).mpr (Or.inr rfl), rfl⟩
  · rw [if_neg hi, get, insert, List.find?_append, ← get]
    simp [Ne.symm hi]

/-- Whatever was stored before, the key is stored after an `INSERT OR IGNORE`. -/
theorem idOf_insertOrIgnore_self (t : Table κ ρ) (k : κ) (v : ρ) :
    (t.insertOrIgnore k v).idOf k = some ((t.idOf k).getD t.nextId) := by
  unfold insertOrIgnore
  split
  · rename_i h
    rw [idOf_insert, if_pos rfl, idOf_eq_none_iff.mpr h]; rfl
  · rename_i h
    rcases hk : t.idOf k with _ | i
    · exact absurd (idOf_eq_none_iff.mp hk) h
    · rfl

/-- A new key changes the index at that key only. -/
theorem idOf_insertOrIgnore_of_find (h : t.find k = none) :
    (t.insertOrIgnore k v).idOf = Function.update t.idOf k (some t.nextId) := by
  funext k'
  rw [insertOrIgnore, dif_pos h, idOf_insert h]
  by_cases hk : k' = k
  · subst hk
    rw [if_pos rfl, Function.update_self]
  · rw [if_neg hk, Function.update_of_ne hk]

end Insert

/-! ### Rewriting payloads and deleting -/

section Change

/-- Rewrite the payload of the row with id `i`. -/
def setVal (t : Table κ ρ) (i : ℕ) (f : ρ → ρ) : Table κ ρ where
  rows := t.rows.map fun r => if r.id = i then { r with val := f r.val } else r
  idOrder := by
    rw [List.pairwise_map]
    exact t.idOrder.imp fun {a b} h => by split <;> split <;> exact h
  uniqueKey := by
    rw [List.pairwise_map]
    exact t.uniqueKey.imp fun {a b} h => by split <;> split <;> exact h

/-- Keep the rows that satisfy `p` (`DELETE` of the others). -/
def filter (t : Table κ ρ) (p : Row κ ρ → Bool) : Table κ ρ where
  rows := t.rows.filter p
  idOrder := t.idOrder.filter p
  uniqueKey := t.uniqueKey.filter p

variable {t : Table κ ρ}

theorem mem_filter {p : Row κ ρ → Bool} {r : Row κ ρ} :
    r ∈ (t.filter p).rows ↔ r ∈ t.rows ∧ p r = true := List.mem_filter

theorem mem_setVal {i : ℕ} {f : ρ → ρ} {r : Row κ ρ} :
    r ∈ (t.setVal i f).rows ↔
      (r ∈ t.rows ∧ r.id ≠ i) ∨ ∃ r₀ ∈ t.rows, r₀.id = i ∧ r = { r₀ with val := f r₀.val } := by
  simp only [setVal, List.mem_map]
  constructor
  · rintro ⟨r₀, hr₀, rfl⟩
    by_cases hi : r₀.id = i
    · rw [if_pos hi]
      exact Or.inr ⟨r₀, hr₀, hi, rfl⟩
    · rw [if_neg hi]
      exact Or.inl ⟨hr₀, hi⟩
  · rintro (⟨hr, hi⟩ | ⟨r₀, hr₀, hi, rfl⟩)
    · exact ⟨r, hr, if_neg hi⟩
    · exact ⟨r₀, hr₀, if_pos hi⟩

theorem get_setVal (t : Table κ ρ) (i j : ℕ) (f : ρ → ρ) :
    (t.setVal i f).get j
      = (t.get j).map fun r => if j = i then { r with val := f r.val } else r := by
  have hpred : ((fun r : Row κ ρ => decide (r.id = j)) ∘
      fun r => if r.id = i then { r with val := f r.val } else r) = fun r => decide (r.id = j) := by
    funext r
    by_cases hi : r.id = i <;> simp [hi]
  rw [get, setVal, List.find?_map, hpred, ← get]
  rcases hg : t.get j with _ | r
  · rfl
  · have hid := (get_eq_some_iff.mp hg).2
    simp only [Option.map_some, hid]

theorem find_setVal [DecidableEq κ] (t : Table κ ρ) (i : ℕ) (k : κ) (f : ρ → ρ) :
    (t.setVal i f).find k
      = (t.find k).map fun r => if r.id = i then { r with val := f r.val } else r := by
  have hpred : ((fun r : Row κ ρ => decide (r.key = k)) ∘
      fun r => if r.id = i then { r with val := f r.val } else r) = fun r => decide (r.key = k) := by
    funext r
    by_cases hi : r.id = i <;> simp [hi]
  rw [find, setVal, List.find?_map, hpred, ← find]

theorem get_filter (t : Table κ ρ) (p : Row κ ρ → Bool) (i : ℕ) :
    (t.filter p).get i = (t.get i).filter p := by
  rcases hg : t.get i with _ | r
  · rw [Option.filter_none, get_eq_none_iff]
    intro r hr
    exact get_eq_none_iff.mp hg r (mem_filter.mp hr).1
  · obtain ⟨hr, hid⟩ := get_eq_some_iff.mp hg
    by_cases hp : p r = true
    · rw [Option.filter_some_pos hp, get_eq_some_iff]
      exact ⟨mem_filter.mpr ⟨hr, hp⟩, hid⟩
    · rw [Option.filter_some_neg (Bool.not_eq_true _ ▸ hp), get_eq_none_iff]
      intro r' hr' hid'
      obtain ⟨hm, hp'⟩ := mem_filter.mp hr'
      rw [t.eq_of_id_eq hm hr (hid'.trans hid.symm)] at hp'
      exact hp hp'

theorem find_filter [DecidableEq κ] (t : Table κ ρ) (p : Row κ ρ → Bool) (k : κ) :
    (t.filter p).find k = (t.find k).filter p := by
  rcases hg : t.find k with _ | r
  · rw [Option.filter_none, find_eq_none_iff]
    intro r hr
    exact find_eq_none_iff.mp hg r (mem_filter.mp hr).1
  · obtain ⟨hr, hk⟩ := find_eq_some_iff.mp hg
    by_cases hp : p r = true
    · rw [Option.filter_some_pos hp, find_eq_some_iff]
      exact ⟨mem_filter.mpr ⟨hr, hp⟩, hk⟩
    · rw [Option.filter_some_neg (Bool.not_eq_true _ ▸ hp), find_eq_none_iff]
      intro r' hr' hk'
      obtain ⟨hm, hp'⟩ := mem_filter.mp hr'
      rw [t.eq_of_key_eq hm hr (hk'.trans hk.symm)] at hp'
      exact hp hp'

end Change

/-! ### Upsert -/

section Upsert

variable [DecidableEq κ]

/-- `INSERT ... ON CONFLICT(key) DO UPDATE`: a taken key keeps its row's id and gets the new payload. -/
def upsert (t : Table κ ρ) (k : κ) (v : ρ) : Table κ ρ :=
  match h : t.find k with
  | none => t.insert k v h
  | some r => t.setVal r.id fun _ => v

/-- The id a key has after an upsert: its own, or the next free one. -/
def upsertId (t : Table κ ρ) (k : κ) : ℕ := (t.idOf k).getD t.nextId

/-- **What an upsert stores**: the new payload under the old id of the key (or the next id), and every
other key as before. -/
theorem find_upsert (t : Table κ ρ) (k k' : κ) (v : ρ) :
    (t.upsert k v).find k' = if k' = k then some ⟨t.upsertId k, k, v⟩ else t.find k' := by
  unfold upsert upsertId idOf
  split
  · rename_i h
    rw [find_insert, h]; rfl
  · rename_i r h
    obtain ⟨hr, hk⟩ := find_eq_some_iff.mp h
    rw [find_setVal]
    by_cases hkk : k' = k
    · subst hkk
      rw [if_pos rfl, h]
      simp [hk]
    · rw [if_neg hkk]
      rcases hf : t.find k' with _ | r'
      · rfl
      · obtain ⟨hr', hk'⟩ := find_eq_some_iff.mp hf
        have hne : r'.id ≠ r.id := by
          intro hid
          rw [t.eq_of_id_eq hr' hr hid] at hk'
          exact hkk (hk'.symm.trans hk)
        simp [hne]

theorem get_upsert (t : Table κ ρ) (k : κ) (v : ρ) (i : ℕ) :
    (t.upsert k v).get i = if i = t.upsertId k then some ⟨t.upsertId k, k, v⟩ else t.get i := by
  unfold upsert upsertId idOf
  split
  · rename_i h
    rw [get_insert, h]; rfl
  · rename_i r h
    obtain ⟨hr, hk⟩ := find_eq_some_iff.mp h
    rw [get_setVal, h]
    by_cases hi : i = r.id
    · subst hi
      simp [get_of_mem hr, hk]
    · simp [hi]

theorem mem_upsert {t : Table κ ρ} {k : κ} {v : ρ} {r : Row κ ρ} :
    r ∈ (t.upsert k v).rows ↔ (r ∈ t.rows ∧ r.key ≠ k) ∨ r = ⟨t.upsertId k, k, v⟩ := by
  have hmem : ∀ {t : Table κ ρ} {r : Row κ ρ}, r ∈ t.rows ↔ t.find r.key = some r :=
    fun {t r} => ⟨find_of_mem, fun h => (find_eq_some_iff.mp h).1⟩
  rw [hmem, find_upsert]
  by_cases hk : r.key = k
  · rw [if_pos hk, Option.some.injEq]
    constructor
    · intro h; exact Or.inr h.symm
    · rintro (⟨_, hne⟩ | h)
      · exact absurd hk hne
      · exact h.symm
  · rw [if_neg hk, ← hmem]
    constructor
    · intro h; exact Or.inl ⟨h, hk⟩
    · rintro (h | h)
      · exact h.1
      · subst h; exact absurd rfl hk

theorem idOf_upsert_self (t : Table κ ρ) (k : κ) (v : ρ) : (t.upsert k v).idOf k = some (t.upsertId k) := by
  rw [idOf, find_upsert, if_pos rfl]
  rfl

theorem upsert_of_find_none {t : Table κ ρ} {k : κ} (h : t.find k = none) (v : ρ) :
    t.upsert k v = t.insert k v h := by
  unfold upsert
  split
  · rfl
  · rename_i hr
    rw [h] at hr
    cases hr

theorem upsert_of_find_some {t : Table κ ρ} {k : κ} {r : Row κ ρ} (h : t.find k = some r) (v : ρ) :
    t.upsert k v = t.setVal r.id fun _ => v := by
  unfold upsert
  split
  · rename_i hn
    rw [h] at hn
    cases hn
  · rename_i hr
    rw [h] at hr
    cases hr
    rfl

/-- Rewriting the upserted payload is upserting the rewritten one. -/
theorem setVal_upsert (t : Table κ ρ) (k : κ) (v : ρ) (f : ρ → ρ) :
    (t.upsert k v).setVal (t.upsertId k) f = t.upsert k (f v) := by
  apply Table.ext
  rcases h : t.find k with _ | r
  · have hid : t.upsertId k = t.nextId := by rw [upsertId, idOf, h]; rfl
    rw [upsert_of_find_none h, upsert_of_find_none h, hid]
    have hold : t.rows.map (fun r => if r.id = t.nextId then { r with val := f r.val } else r) = t.rows := by
      conv_rhs => rw [← List.map_id t.rows]
      apply List.map_congr_left
      intro r hr
      exact if_neg (Nat.ne_of_lt (t.id_lt_nextId hr))
    simp only [setVal, insert, List.map_append, hold, List.map_cons, List.map_nil, if_true]
  · have hid : t.upsertId k = r.id := by rw [upsertId, idOf, h]; rfl
    rw [upsert_of_find_some h, upsert_of_find_some h, hid]
    simp only [setVal, List.map_map]
    apply List.map_congr_left
    intro r' _
    by_cases hr : r'.id = r.id <;> simp [hr]

end Upsert

/-! ### Forgetting part of the payloads -/

section MapVals

variable {τ : Type} (f : ρ → τ)

/-- Every payload replaced by what `f` keeps of it. -/
def mapVals (t : Table κ ρ) : Table κ τ where
  rows := t.rows.map fun r => ⟨r.id, r.key, f r.val⟩
  idOrder := by
    rw [List.pairwise_map]
    exact t.idOrder
  uniqueKey := by
    rw [List.pairwise_map]
    exact t.uniqueKey

theorem get_mapVals (t : Table κ ρ) (i : ℕ) :
    (t.mapVals f).get i = (t.get i).map fun r => ⟨r.id, r.key, f r.val⟩ := by
  rw [get, mapVals, List.find?_map]
  rfl

theorem nextId_mapVals (t : Table κ ρ) : (t.mapVals f).nextId = t.nextId := by
  rw [nextId, nextId, mapVals, List.map_map]
  rfl

theorem mapVals_filter (t : Table κ ρ) {p : Row κ ρ → Bool} {q : Row κ τ → Bool}
    (h : ∀ r : Row κ ρ, q ⟨r.id, r.key, f r.val⟩ = p r) : (t.filter p).mapVals f = (t.mapVals f).filter q := by
  apply Table.ext
  show (t.rows.filter p).map _ = (t.rows.map _).filter q
  rw [List.filter_map]
  congr 2
  funext r
  exact (h r).symm

theorem mapVals_setVal (t : Table κ ρ) (i : ℕ) {g : ρ → ρ} {g' : τ → τ} (h : ∀ v, f (g v) = g' (f v)) :
    (t.setVal i g).mapVals f = (t.mapVals f).setVal i g' := by
  apply Table.ext
  show (t.rows.map _).map _ = (t.rows.map _).map _
  rw [List.map_map, List.map_map]
  apply List.map_congr_left
  intro r _
  show (⟨_, _, _⟩ : Row κ τ) = if r.id = i then _ else _
  by_cases hi : r.id = i
  · simp [hi, h]
  · simp [hi]

variable [DecidableEq κ]

theorem find_mapVals (t : Table κ ρ) (k : κ) :
    (t.mapVals f).find k = (t.find k).map fun r => ⟨r.id, r.key, f r.val⟩ := by
  rw [find, mapVals, List.find?_map]
  rfl

theorem mapVals_upsert (t : Table κ ρ) (k : κ) (v : ρ) : (t.upsert k v).mapVals f = (t.mapVals f).upsert k (f v) := by
  rcases hfind : t.find k with _ | r
  · have hfind' : (t.mapVals f).find k = none := by rw [find_mapVals, hfind]; rfl
    rw [upsert_of_find_none hfind, upsert_of_find_none hfind']
    apply Table.ext
    show (t.rows ++ [_]).map _ = t.rows.map _ ++ [_]
    rw [List.map_append, nextId_mapVals]
    rfl
  · have hfind' : (t.mapVals f).find k = some ⟨r.id, r.key, f r.val⟩ := by rw [find_mapVals, hfind]; rfl
    rw [upsert_of_find_some hfind, upsert_of_find_some hfind']
    exact mapVals_setVal f t r.id fun _ => rfl

end MapVals

end Table

end McapCatalog.RowidTable
