import Mathlib.Data.List.Basic

/-!
# POSIX paths as strings

`join`, `normpath`, `abspath` and `relpath` of `posixpath`, over the characters of any alphabet with a slash and a dot.  A
path is what its names make of a stack: a name goes on it, `..` takes one off, empty names and `.` do nothing.

* `join`, `walk` — a path below another one, a name at a time;
* `push`, `stack` — the names that are left of a path;
* `normpath`, `abspath`, `relpath` — the functions on strings;
* `stack_join` — joining goes on with the stack;
* `relpath_join` — **a path below a start is found again relative to it**, however the start is written.
-/

namespace McapCatalog.PosixPath

variable {α : Type} [DecidableEq α] (slash dot : α)

/-- `join(a, b)`. -/
def join (a b : List α) : List α :=
  if b.head? = some slash then b
  else if a = [] ∨ a.getLast? = some slash then a ++ b
  else a ++ slash :: b

/-- `join(a, name, …)`, one name after the other. -/
def walk (a : List α) (names : List (List α)) : List α := names.foldl (join slash) a

/-- A name of a path is put on the stack of those before it, the last one on top. -/
def push (rooted : Bool) (above : List (List α)) (name : List α) : List (List α) :=
  if name = [] ∨ name = [dot] then above
  else if name ≠ [dot, dot] ∨ (rooted = false ∧ above = []) ∨ above.head? = some [dot, dot] then name :: above
  else above.tail

/-- The names that are left of a path, the last one first. -/
def stack (rooted : Bool) (above : List (List α)) (path : List α) : List (List α) :=
  (path.splitOn slash).foldl (push dot rooted) above

/-- The slashes that a normal path begins with: two stay two, and more are one. -/
def leading (path : List α) : ℕ :=
  if path.head? ≠ some slash then 0
  else if path.take 2 = [slash, slash] ∧ path.take 3 ≠ [slash, slash, slash] then 2
  else 1

/-- `normpath(path)`. -/
def normpath (path : List α) : List α :=
  if path = [] then [dot]
  else
    let names := (stack slash dot (0 < leading slash path) [] path).reverse
    let normal := List.replicate (leading slash path) slash ++ [slash].intercalate names
    if normal = [] then [dot] else normal

/-- A path made absolute. -/
def rooted (cwd path : List α) : List α := if path.head? = some slash then path else join slash cwd path

/-- `abspath(path)`. -/
def abspath (cwd path : List α) : List α := normpath slash dot (rooted slash cwd path)

/-- `[x for x in path.split('/') if x]`. -/
def parts (path : List α) : List (List α) := (path.splitOn slash).filter fun name => name ≠ []

/-- `len(commonprefix([a, b]))`. -/
def common {β : Type} [DecidableEq β] : List β → List β → ℕ
  | x :: xs, y :: ys => if x = y then common xs ys + 1 else 0
  | _, _ => 0

/-- `relpath(path, start)`; no path at all is an error. -/
def relpath (cwd path start : List α) : Option (List α) :=
  if path = [] then none
  else
    let below := parts slash (abspath slash dot cwd start)
    let names := parts slash (abspath slash dot cwd path)
    let shared := common below names
    match List.replicate (below.length - shared) [dot, dot] ++ names.drop shared with
    | [] => some [dot]
    | name :: names => some (walk slash name names)

/-- A name that a file or a folder can have. -/
structure Proper (name : List α) : Prop where
  nonempty : name ≠ []
  notDot : name ≠ [dot]
  notUp : name ≠ [dot, dot]
  noSlash : slash ∉ name

variable {slash dot}

/-! ### Joining -/

/-- The three ways to join a path that is not absolute. -/
theorem join_cases (a : List α) {b : List α} (h : b.head? ≠ some slash) :
    (a = [] ∧ join slash a b = b) ∨ (∃ a', a = a' ++ [slash] ∧ join slash a b = a' ++ slash :: b) ∨
      (a ≠ [] ∧ join slash a b = a ++ slash :: b) := by
  rw [join, if_neg h]
  by_cases hnil : a = []
  · rw [if_pos (Or.inl hnil), hnil]
    exact Or.inl ⟨rfl, rfl⟩
  · by_cases hlast : a.getLast? = some slash
    · rw [if_pos (Or.inr hlast)]
      obtain ⟨a', ha⟩ := List.getLast?_eq_some_iff.mp hlast
      refine Or.inr (Or.inl ⟨a', ha, ?_⟩)
      rw [ha, List.append_assoc, List.singleton_append]
    · rw [if_neg (not_or.mpr ⟨hnil, hlast⟩)]
      exact Or.inr (Or.inr ⟨hnil, rfl⟩)

/-- Empty names stay out of the stack. -/
theorem push_nil (root : Bool) (above : List (List α)) : push dot root above [] = above := if_pos (Or.inl rfl)

theorem stack_nil (root : Bool) (above : List (List α)) : stack slash dot root above [] = above := by
  rw [stack, List.splitOn_nil, List.foldl_cons, List.foldl_nil, push_nil]

/-- What comes after a slash goes on with the stack. -/
theorem stack_append (root : Bool) (above : List (List α)) (a b : List α) :
    stack slash dot root above (a ++ slash :: b) = stack slash dot root (stack slash dot root above a) b := by
  rw [stack, List.splitOn_append_cons_self, List.foldl_append, stack, stack]

/-- **Joining goes on with the stack.** -/
theorem stack_join (root : Bool) (above : List (List α)) (a : List α) {b : List α} (h : b.head? ≠ some slash) :
    stack slash dot root above (join slash a b) = stack slash dot root (stack slash dot root above a) b := by
  rcases join_cases a h with ⟨ha, hjoin⟩ | ⟨a', ha, hjoin⟩ | ⟨_, hjoin⟩
  · rw [hjoin, ha, stack_nil]
  · rw [hjoin, ha, stack_append, stack_append, stack_nil]
  · rw [hjoin, stack_append]

/-! ### Names -/

section Names

variable {name : List α} {names : List (List α)}

omit [DecidableEq α] in
theorem Proper.head (h : Proper slash dot name) : name.head? ≠ some slash := by
  intro hhead
  exact h.noSlash (List.mem_of_mem_head? hhead)

omit [DecidableEq α] in
theorem Proper.last (h : Proper slash dot name) : name.getLast? ≠ some slash := by
  intro hlast
  exact h.noSlash (List.mem_of_mem_getLast? hlast)

theorem Proper.push (h : Proper slash dot name) (root : Bool) (above : List (List α)) :
    push dot root above name = name :: above := by
  rw [PosixPath.push, if_neg (not_or.mpr ⟨h.nonempty, h.notDot⟩), if_pos (Or.inl h.notUp)]

omit [DecidableEq α] in
/-- A path of proper names is not absolute. -/
theorem head_intercalate (h : ∀ name ∈ names, Proper slash dot name) : ([slash].intercalate names).head? ≠ some slash := by
  cases names with
  | nil => exact fun hhead => by cases hhead
  | cons name names =>
      have hname := h name List.mem_cons_self
      cases hn : name with
      | nil => exact absurd hn hname.nonempty
      | cons c rest =>
          have hc := hname.head
          rw [hn] at hc
          cases names <;> exact hc

/-- Proper names all go on the stack. -/
theorem stack_intercalate (hne : names ≠ []) (h : ∀ name ∈ names, Proper slash dot name) (root : Bool)
    (above : List (List α)) : stack slash dot root above ([slash].intercalate names) = names.reverse ++ above := by
  rw [stack, List.splitOn_intercalate slash (fun name hname => (h name hname).noSlash) hne]
  clear hne
  induction names generalizing above with
  | nil => rfl
  | cons name names ih =>
      rw [List.foldl_cons, (h name List.mem_cons_self).push root above, ih fun n hn => h n (List.mem_cons_of_mem _ hn),
        List.reverse_cons, List.append_assoc, List.singleton_append]

/-- Walking down from a path that ends in a name. -/
theorem walk_append (a : List α) (h : ∀ name ∈ names, Proper slash dot name) (hne : a ≠ [])
    (hlast : a.getLast? ≠ some slash) : walk slash a names = [slash].intercalate (a :: names) := by
  induction names generalizing a with
  | nil => rw [walk, List.foldl_nil, List.intercalate_singleton]
  | cons name names ih =>
      have hname := h name List.mem_cons_self
      have hjoin : join slash a name = a ++ slash :: name := by
        rw [join, if_neg hname.head, if_neg (not_or.mpr ⟨hne, hlast⟩)]
      have hend : (a ++ slash :: name).getLast? ≠ some slash := by
        rw [List.getLast?_append_of_ne_nil _ (List.cons_ne_nil _ _), List.getLast?_cons_of_ne_nil hname.nonempty]
        exact hname.last
      have hrest := ih (a ++ slash :: name) (fun n hn => h n (List.mem_cons_of_mem _ hn))
        (fun hnil => by cases List.append_eq_nil_iff.mp hnil |>.2) hend
      rw [walk, List.foldl_cons, hjoin]
      rw [walk] at hrest
      rw [hrest, List.intercalate_cons_cons]
      cases names with
      | nil => rw [List.intercalate_singleton, List.intercalate_singleton, List.append_assoc, List.singleton_append]
      | cons next names =>
          rw [List.intercalate_cons_cons, List.intercalate_cons_cons]
          simp only [List.append_assoc, List.cons_append, List.nil_append]

/-- Walking down is joining once. -/
theorem walk_eq_join (a : List α) (hne : names ≠ []) (h : ∀ name ∈ names, Proper slash dot name) :
    walk slash a names = join slash a ([slash].intercalate names) := by
  cases names with
  | nil => exact absurd rfl hne
  | cons name names =>
      have hname := h name List.mem_cons_self
      have hrest : ∀ n ∈ names, Proper slash dot n := fun n hn => h n (List.mem_cons_of_mem _ hn)
      have hhead := head_intercalate h
      have hend : ∀ front : List α, (front ++ name).getLast? ≠ some slash := by
        intro front
        rw [List.getLast?_append_of_ne_nil _ hname.nonempty]
        exact hname.last
      have hfull : ∀ front : List α, walk slash (front ++ name) names = front ++ [slash].intercalate (name :: names) := by
        intro front
        rw [walk_append (front ++ name) hrest (fun hnil => hname.nonempty (List.append_eq_nil_iff.mp hnil).2) (hend front)]
        cases names with
        | nil => rw [List.intercalate_singleton, List.intercalate_singleton]
        | cons next names => rw [List.intercalate_cons_cons, List.intercalate_cons_cons, List.append_assoc, List.append_assoc,
            List.append_assoc]
      rw [walk, List.foldl_cons, ← walk]
      rw [join, join, if_neg hname.head, if_neg hhead]
      by_cases hshort : a = [] ∨ a.getLast? = some slash
      · rw [if_pos hshort, if_pos hshort]
        exact hfull a
      · rw [if_neg hshort, if_neg hshort, List.append_cons a slash name, List.append_cons a slash ([slash].intercalate _)]
        exact hfull (a ++ [slash])

end Names

/-! ### What is left of a path -/

/-- A name between slashes has none. -/
theorem not_mem_of_mem_splitOn {path name : List α} (h : name ∈ path.splitOn slash) : slash ∉ name := by
  induction path generalizing name with
  | nil =>
      rw [List.splitOn_nil, List.mem_singleton] at h
      rw [h]
      exact List.not_mem_nil
  | cons c path ih =>
      rw [List.splitOn_cons_eq_if_modifyHead] at h
      by_cases hc : c = slash
      · rw [if_pos (beq_iff_eq.mpr hc)] at h
        cases List.mem_cons.mp h with
        | inl hnil =>
            rw [hnil]
            exact List.not_mem_nil
        | inr hrest => exact ih hrest
      · rw [if_neg (fun heq => hc (beq_iff_eq.mp heq))] at h
        cases hs : path.splitOn slash with
        | nil => exact absurd hs (List.splitOn_ne_nil slash path)
        | cons first rest =>
            rw [hs] at h ih
            cases List.mem_cons.mp h with
            | inl hfirst =>
                rw [hfirst]
                intro hmem
                cases List.mem_cons.mp hmem with
                | inl heq => exact hc heq.symm
                | inr hin => exact ih List.mem_cons_self hin
            | inr hrest => exact ih (List.mem_cons_of_mem _ hrest)

/-- Names on the stack are not empty and have no slash. -/
def Names (slash : α) (above : List (List α)) : Prop := ∀ name ∈ above, name ≠ [] ∧ slash ∉ name

theorem names_stack {root : Bool} {above : List (List α)} (h : Names slash above) (path : List α) :
    Names slash (stack slash dot root above path) := by
  have hsplit : ∀ name ∈ path.splitOn slash, slash ∉ name := fun name hname => not_mem_of_mem_splitOn hname
  rw [stack]
  generalize path.splitOn slash = names at hsplit
  induction names generalizing above with
  | nil => exact h
  | cons name names ih =>
      refine ih ?_ fun n hn => hsplit n (List.mem_cons_of_mem _ hn)
      rw [push]
      by_cases hskip : name = [] ∨ name = [dot]
      · rw [if_pos hskip]
        exact h
      · rw [if_neg hskip]
        split
        · intro n hn
          cases List.mem_cons.mp hn with
          | inl heq =>
              rw [heq]
              exact ⟨fun hnil => hskip (Or.inl hnil), hsplit name List.mem_cons_self⟩
          | inr hold => exact h n hold
        · exact fun n hn => h n (List.mem_of_mem_tail hn)

theorem parts_cons_slash (path : List α) : parts slash (slash :: path) = parts slash path := by
  rw [parts, show slash :: path = [] ++ slash :: path from rfl, List.splitOn_append_cons_self, List.splitOn_nil]
  rfl

theorem parts_replicate (n : ℕ) (path : List α) : parts slash (List.replicate n slash ++ path) = parts slash path := by
  induction n with
  | zero => rfl
  | succ n ih => rw [List.replicate_succ, List.cons_append, parts_cons_slash, ih]

theorem parts_intercalate {names : List (List α)} (h : Names slash names) :
    parts slash ([slash].intercalate names) = names := by
  by_cases hne : names = []
  · rw [hne]
    rfl
  · rw [parts, List.splitOn_intercalate slash (fun name hname => (h name hname).2) hne]
    exact List.filter_eq_self.mpr fun name hname => decide_eq_true (h name hname).1

theorem leading_pos {path : List α} (h : path.head? = some slash) : 0 < leading slash path := by
  rw [leading, if_neg (not_not.mpr h)]
  split
  · exact Nat.zero_lt_two
  · exact Nat.zero_lt_one

/-- **The parts of a normal absolute path are what the stack leaves of it.** -/
theorem parts_normpath {path : List α} (h : path.head? = some slash) :
    parts slash (normpath slash dot path) = (stack slash dot true [] path).reverse := by
  have hpos := leading_pos h
  have hne : path ≠ [] := by
    rintro rfl
    cases h
  have hnormal : List.replicate (leading slash path) slash ++
      [slash].intercalate (stack slash dot true [] path).reverse ≠ [] := by
    intro hnil
    have hnone := (List.append_eq_nil_iff.mp hnil).1
    rw [List.replicate_eq_nil_iff] at hnone
    omega
  rw [normpath, if_neg hne, decide_eq_true hpos]
  dsimp only
  rw [if_neg hnormal, parts_replicate]
  refine parts_intercalate fun name hname => ?_
  exact names_stack (show Names slash [] from fun n hn => by cases hn) path name (List.mem_reverse.mp hname)

theorem head_join {a : List α} (b : List α) (h : a.head? = some slash) : (join slash a b).head? = some slash := by
  cases a with
  | nil => cases h
  | cons c a =>
      rw [join]
      split
      · assumption
      · split <;> exact h

theorem head_rooted {cwd : List α} (hcwd : cwd.head? = some slash) (path : List α) :
    (rooted slash cwd path).head? = some slash := by
  rw [rooted]
  by_cases h : path.head? = some slash
  · rw [if_pos h]
    exact h
  · rw [if_neg h]
    exact head_join path hcwd

/-- A path below another one is found from where that one is. -/
theorem stack_rooted_join (cwd a : List α) {b : List α} (h : b.head? ≠ some slash) :
    stack slash dot true [] (rooted slash cwd (join slash a b)) =
      stack slash dot true (stack slash dot true [] (rooted slash cwd a)) b := by
  by_cases ha : a.head? = some slash
  · rw [rooted, if_pos (head_join b ha), rooted, if_pos ha, stack_join true [] a h]
  · have hjoin : (join slash a b).head? ≠ some slash := by
      rcases join_cases a h with ⟨_, hab⟩ | ⟨a', haa, hab⟩ | ⟨hne, hab⟩
      · rw [hab]
        exact h
      · rw [hab]
        rw [haa] at ha
        cases a' with
        | nil => exact absurd rfl ha
        | cons c a' => exact ha
      · rw [hab]
        cases a with
        | nil => exact absurd rfl hne
        | cons c a => exact ha
    rw [rooted, if_neg hjoin, rooted, if_neg ha, stack_join true [] cwd hjoin, stack_join true _ a h,
      stack_join true [] cwd ha]

theorem common_append {β : Type} [DecidableEq β] (xs ys : List β) : common xs (xs ++ ys) = xs.length := by
  induction xs with
  | nil => cases ys <;> rfl
  | cons x xs ih =>
      show (if x = x then common xs (xs ++ ys) + 1 else 0) = xs.length + 1
      rw [if_pos rfl, ih]

/-- **A path below a start is found again relative to it**, however the start and the working directory are written. -/
theorem relpath_join {cwd : List α} (hcwd : cwd.head? = some slash) (start : List α) {names : List (List α)} (hne : names ≠ [])
    (h : ∀ name ∈ names, Proper slash dot name) :
    relpath slash dot cwd (join slash start ([slash].intercalate names)) start = some ([slash].intercalate names) := by
  have hhead := head_intercalate h
  have hnames : parts slash (abspath slash dot cwd (join slash start ([slash].intercalate names))) =
      parts slash (abspath slash dot cwd start) ++ names := by
    rw [abspath, parts_normpath (head_rooted hcwd _), stack_rooted_join cwd start hhead, stack_intercalate hne h,
      List.reverse_append, List.reverse_reverse, abspath, parts_normpath (head_rooted hcwd _)]
  have hbelow : [slash].intercalate names ≠ [] := by
    intro hnil
    have hparts := parts_intercalate (show Names slash names from fun name hname => ⟨(h name hname).nonempty, (h name hname).noSlash⟩)
    rw [hnil] at hparts
    exact hne hparts.symm
  have hpath : join slash start ([slash].intercalate names) ≠ [] := by
    intro hnil
    rcases join_cases start hhead with ⟨_, hjoin⟩ | ⟨_, _, hjoin⟩ | ⟨_, hjoin⟩
    · exact hbelow (hjoin.symm.trans hnil)
    · exact List.cons_ne_nil _ _ (List.append_eq_nil_iff.mp (hjoin.symm.trans hnil)).2
    · exact List.cons_ne_nil _ _ (List.append_eq_nil_iff.mp (hjoin.symm.trans hnil)).2
  rw [relpath, if_neg hpath, hnames]
  dsimp only
  rw [common_append, Nat.sub_self, List.replicate_zero, List.nil_append, List.drop_left]
  cases names with
  | nil => exact absurd rfl hne
  | cons name names =>
      have hname := h name List.mem_cons_self
      show some (walk slash name names) = _
      rw [walk_append name (fun n hn => h n (List.mem_cons_of_mem _ hn)) hname.nonempty hname.last]

end McapCatalog.PosixPath
