import Mathlib.Data.List.Pairwise

/-!
# Objects with distinct names

A collection whose objects are found by their names: the tables of a database, the declarations of a program.  That no two
have the same name is a **field**.

* `find`, `add`, `update` — the object of a name, one more object, and every object changed under its name;
* `find_eq_some_iff` — what is found is there, and what is there is found;
* `find_add`, `find_update` — what is found after each of them.

Nothing here names a particular kind of object.
-/

namespace McapCatalog.NamedObjects

variable {ο ν : Type} {name : ο → ν}

/-- Objects in the order in which they were added, no two of one name. -/
structure Named (name : ο → ν) where
  objects : List ο
  distinct : objects.Pairwise fun a b => name a ≠ name b

namespace Named

@[ext] theorem ext {s s' : Named name} (h : s.objects = s'.objects) : s = s' := by
  cases s
  cases s'
  cases h
  rfl

/-- Every object changed under its name. -/
def update (s : Named name) (f : ο → ο) (hname : ∀ o, name (f o) = name o) : Named name where
  objects := s.objects.map f
  distinct := by
    rw [List.pairwise_map]
    simpa only [hname] using s.distinct

variable [DecidableEq ν]

/-- The object of a name. -/
def find (s : Named name) (n : ν) : Option ο := s.objects.find? fun o => name o = n

theorem find_eq_none_iff {s : Named name} {n : ν} : s.find n = none ↔ ∀ o ∈ s.objects, name o ≠ n := by
  simp [find, List.find?_eq_none]

theorem find_eq_some_iff {s : Named name} {n : ν} {o : ο} : s.find n = some o ↔ o ∈ s.objects ∧ name o = n := by
  constructor
  · intro h
    exact ⟨List.mem_of_find?_eq_some h, by simpa using List.find?_some h⟩
  · rintro ⟨hmem, rfl⟩
    cases hfind : s.find (name o) with
    | none => exact absurd rfl (find_eq_none_iff.mp hfind o hmem)
    | some o' =>
        have hmem' : o' ∈ s.objects := List.mem_of_find?_eq_some hfind
        have hname : name o' = name o := by simpa using List.find?_some hfind
        have hsymm : Std.Symm fun a b : ο => name a ≠ name b := ⟨fun _ _ h => h.symm⟩
        -- Two objects of one name are one.
        by_contra hne
        exact s.distinct.forall hmem' hmem (fun heq => hne (congrArg some heq)) hname

/-- One more object, unless its name is taken. -/
def add (s : Named name) (o : ο) : Named name where
  objects := if s.find (name o) = none then s.objects ++ [o] else s.objects
  distinct := by
    split
    · rename_i hnone
      refine List.pairwise_append.mpr ⟨s.distinct, List.pairwise_singleton _ _, fun a ha b hb => ?_⟩
      rw [List.mem_singleton.mp hb]
      exact find_eq_none_iff.mp hnone a ha
    · exact s.distinct

theorem objects_add {s : Named name} {o : ο} (h : s.find (name o) = none) : (s.add o).objects = s.objects ++ [o] := if_pos h

theorem find_add {s : Named name} {o : ο} (h : s.find (name o) = none) (n : ν) :
    (s.add o).find n = if name o = n then some o else s.find n := by
  rw [find, objects_add h, List.find?_append]
  by_cases hn : name o = n
  · rw [if_pos hn, ← hn]
    have hnone : s.objects.find? (fun x => decide (name x = name o)) = none := h
    rw [hnone]
    simp
  · rw [if_neg hn]
    simp [find, hn]

/-- **What was found is found**, after any number of additions. -/
theorem find_of_prefix {s s' : Named name} (h : s.objects <+: s'.objects) {n : ν} {o : ο} (hfind : s.find n = some o) :
    s'.find n = some o := by
  obtain ⟨hmem, hname⟩ := find_eq_some_iff.mp hfind
  exact find_eq_some_iff.mpr ⟨h.subset hmem, hname⟩

theorem find_update (s : Named name) (f : ο → ο) (hname : ∀ o, name (f o) = name o) (n : ν) :
    (s.update f hname).find n = (s.find n).map f := by
  rw [find, update, List.find?_map]
  simp only [Function.comp_def, hname]
  rfl

end Named

end McapCatalog.NamedObjects
