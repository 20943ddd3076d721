import McapCatalog.Debounce
import McapCatalog.EventPath
import McapCatalog.LocalFiles

/-!
# The changes of a watched tree

A tree of files that changes under the eyes of a builder, and what the watcher calls back for each change.

* `Change`, `TreeHistory` — what happens to a tree that starts from some files, and what it holds at each moment;
* `lookup_treeAt`, `lookup_last` — a key has in the end what its last change left;
* `arrives_iff`, `leaves_iff` — **the callback of a change** is about the path of a key as the change is about the key.
-/

namespace McapCatalog.WatchPath

open McapCatalog.PyText McapCatalog.PyError McapCatalog.KeyParse McapCatalog.McapSummary McapCatalog.Storage
open McapCatalog.Tables McapCatalog.RowidTable McapCatalog.KeyedRows
open McapCatalog.Connection McapCatalog.CatalogDb McapCatalog.Builder McapCatalog.Reconcile McapCatalog.Worker McapCatalog.Runs
open McapCatalog.LocalFiles McapCatalog.EventPath McapCatalog.Debounce
open McapCatalog.Discovery (FsEvent isCatalogable)
open Relation

/-! ### Histories -/

/-- A change of a tree: a file is created, written, deleted, or moved, from or to whatever name. -/
inductive Change where
  | created (key : PyStr) (file : LocalFile)
  | modified (key : PyStr) (file : LocalFile)
  | deleted (key : PyStr)
  | moved (src dst : PyStr) (file : LocalFile)

namespace Change

/-- What there is at a key after the change, if it is about the key. -/
def effect (key : PyStr) : Change → Option (Option LocalFile)
  | created k file | modified k file => if k = key then some (some file) else none
  | deleted k => if k = key then some none else none
  | moved src dst file => if dst = key then some (some file) else if src = key then some none else none

/-- The change is about the key. -/
def touches (key : PyStr) (change : Change) : Bool := (change.effect key).isSome

/-- The tree after it. -/
def apply (tree : Tree) : Change → Tree
  | created key file | modified key file => tree.insert key file
  | deleted key => tree.erase key
  | moved src dst file => (tree.erase src).insert dst file

/-- What is called back, with these paths for the keys. -/
def callbackAt (path : PyStr → PyStr) : Change → Callback
  | created key _ => .created ⟨false, path key, []⟩
  | modified key _ => .modified ⟨false, path key, []⟩
  | deleted key => .deleted ⟨false, path key, []⟩
  | moved src dst _ => .moved ⟨false, path src, path dst⟩

/-- What the watcher calls back. -/
def callback (watch : Watch) (change : Change) : Callback := change.callbackAt watch.pathOf

theorem lookup_apply (tree : Tree) (change : Change) (key : PyStr) :
    (change.apply tree).lookup key = (change.effect key).getD (tree.lookup key) := by
  have hinsert : ∀ (tree : Tree) k file, (tree.insert k file).lookup key =
      (if k = key then some (some file) else none).getD (tree.lookup key) := by
    intro tree k file
    by_cases h : k = key
    · rw [if_pos h, h]
      exact AList.lookup_insert _
    · rw [if_neg h]
      exact AList.lookup_insert_ne (Ne.symm h)
  have herase : ∀ k, (tree.erase k).lookup key = (if k = key then some none else none).getD (tree.lookup key) := by
    intro k
    by_cases h : k = key
    · rw [if_pos h, h]
      exact AList.lookup_erase _ _
    · rw [if_neg h]
      exact AList.lookup_erase_ne (Ne.symm h)
  cases change with
  | created k file => exact hinsert tree k file
  | modified k file => exact hinsert tree k file
  | deleted k => exact herase k
  | moved src dst file =>
      show ((tree.erase src).insert dst file).lookup key = _
      rw [hinsert, herase, effect]
      by_cases h : dst = key
      · rw [if_pos h, if_pos h]
        rfl
      · rw [if_neg h, if_neg h]
        rfl

end Change

/-- A key is a path below the root. -/
def IsPath (key : PyStr) : Prop := ∃ names : List PyStr, names ≠ [] ∧ (∀ name ∈ names, ProperName name) ∧ key = relKey names

/-- A file carries no key, or its own. -/
def Truthful (key : PyStr) (file : LocalFile) : Prop := ∀ k, file.s3Key = .ok (some k) → k = key

/-- A change is at paths below the root, whose names can be stored where they are catalogable, and of truthful files. -/
structure Change.Proper (change : Change) : Prop where
  paths : ∀ key, change.touches key = true → IsPath key
  encodable : ∀ key, change.touches key = true → isCatalogable key = true → encodable key = true
  files : ∀ key file, change.effect key = some (some file) → Truthful key file
  apart : ∀ src dst file, change = .moved src dst file → src ≠ dst

/-- The tree after changes. -/
def contents (start : Tree) (changes : List (ℕ × Change)) : Tree := changes.foldl (fun tree c => c.2.apply tree) start

/-- What happens to a tree: what it starts with, and its changes with their moments and in order. -/
structure TreeHistory where
  start : Tree
  changes : List (ℕ × Change)
  ordered : changes.Pairwise fun c c' => c.1 ≤ c'.1
  proper : ∀ c ∈ changes, c.2.Proper
  truthful : ∀ key file, start.lookup key = some file → Truthful key file

/-- What the tree holds at a moment. -/
def TreeHistory.treeAt (h : TreeHistory) (t : ℕ) : Tree := contents h.start (h.changes.filter fun c => c.1 ≤ t)

/-- What it holds in the end. -/
def TreeHistory.final (h : TreeHistory) : Tree := contents h.start h.changes

section Contents

variable {h : TreeHistory} {key : PyStr} {file : LocalFile} {t : ℕ}

theorem lookup_append (start : Tree) (changes : List (ℕ × Change)) (c : ℕ × Change) (key : PyStr) :
    (contents start (changes ++ [c])).lookup key = (c.2.effect key).getD ((contents start changes).lookup key) := by
  rw [contents, List.foldl_append, List.foldl_cons, List.foldl_nil, Change.lookup_apply, contents]

/-- Only the changes of a key matter to it. -/
theorem lookup_contents (start : Tree) (changes : List (ℕ × Change)) (key : PyStr) : (contents start changes).lookup key =
    (contents start (changes.filter fun c => c.2.touches key)).lookup key := by
  induction changes using List.reverseRecOn with
  | nil => rfl
  | append_singleton changes c ih =>
      rw [lookup_append, List.filter_append, List.filter_singleton]
      cases heffect : c.2.effect key with
      | none => rw [show c.2.touches key = false by rw [Change.touches, heffect]; rfl, cond_false, List.append_nil, ← ih]; rfl
      | some found =>
          rw [show c.2.touches key = true by rw [Change.touches, heffect]; rfl, cond_true, lookup_append, heffect]
          rfl

/-- From the moment of its last change on, a key has what it has in the end. -/
theorem lookup_treeAt (hpast : ∀ c ∈ h.changes, c.2.touches key = true → c.1 ≤ t) :
    (h.treeAt t).lookup key = h.final.lookup key := by
  rw [TreeHistory.treeAt, TreeHistory.final, lookup_contents, lookup_contents h.start h.changes, List.filter_filter]
  refine congrArg (fun l => (contents h.start l).lookup key) (List.filter_congr fun c hc => ?_)
  cases htouch : c.2.touches key with
  | true => rw [decide_eq_true (hpast c hc htouch)]; rfl
  | false => rfl

/-- A key that no change is about has what it started with. -/
theorem lookup_untouched (hnone : ∀ c ∈ h.changes, c.2.touches key = false) : h.final.lookup key = h.start.lookup key := by
  rw [TreeHistory.final, lookup_contents, List.filter_eq_nil_iff.mpr fun c hc => by rw [hnone c hc]; exact Bool.false_ne_true]
  rfl

/-- The last change of a key decides what there is. -/
theorem lookup_last {before after : List (ℕ × Change)} {c : ℕ × Change} {found : Option LocalFile}
    (hsplit : h.changes = before ++ c :: after) (heffect : c.2.effect key = some found)
    (hlast : ∀ c' ∈ after, c'.2.touches key = false) : h.final.lookup key = found := by
  have htouch : c.2.touches key = true := by
    rw [Change.touches, heffect]
    rfl
  have hafter : after.filter (fun c => c.2.touches key) = [] :=
    List.filter_eq_nil_iff.mpr fun c' hc' => by rw [hlast c' hc']; exact Bool.false_ne_true
  have hfilter : (before ++ c :: after).filter (fun c => c.2.touches key) =
      before.filter (fun c => c.2.touches key) ++ [c] := by
    rw [List.filter_append, List.filter_cons, if_pos htouch, hafter]
  rw [TreeHistory.final, hsplit, lookup_contents, hfilter, lookup_append, heffect]
  rfl

/-- What is in the tree is truthful. -/
theorem truthful_contents {changes : List (ℕ × Change)} (hsub : ∀ c ∈ changes, c ∈ h.changes)
    (hlookup : (contents h.start changes).lookup key = some file) : Truthful key file := by
  induction changes using List.reverseRecOn with
  | nil => exact h.truthful key file hlookup
  | append_singleton changes c ih =>
      rw [lookup_append] at hlookup
      cases heffect : c.2.effect key with
      | none =>
          rw [heffect] at hlookup
          exact ih (fun c' hc' => hsub c' (List.mem_append_left _ hc')) hlookup
      | some found =>
          rw [heffect] at hlookup
          cases (show found = some file from hlookup)
          exact (h.proper c (hsub c (List.mem_append_right _ List.mem_cons_self))).files key file heffect

end Contents

/-! ### Paths and callbacks -/

section Callbacks

variable {watch : Watch} {key key' : PyStr} {change : Change}

theorem eventKey_absPath (watch : Watch) (h : IsPath key) : watch.eventKey (watch.absPath key) = key := by
  obtain ⟨names, hne, hproper, rfl⟩ := h
  exact eventKey_relKey watch hne hproper

theorem absPath_inj (h : IsPath key) (h' : IsPath key') (heq : watch.absPath key = watch.absPath key') : key = key' := by
  rw [← eventKey_absPath watch h, heq, eventKey_absPath watch h']

theorem pathOf_eq (watch : Watch) (h : IsPath key) : watch.pathOf key = watch.absPath key := by
  obtain ⟨names, hne, hproper, rfl⟩ := h
  exact pathOf_relKey watch hne hproper

/-- The watcher reports the paths at which the keys are opened. -/
theorem callback_eq (hc : change.Proper) : change.callback watch = change.callbackAt watch.absPath := by
  have hpath : ∀ k, change.touches k = true → watch.pathOf k = watch.absPath k := fun k hk => pathOf_eq watch (hc.paths k hk)
  cases change with
  | created k file | modified k file | deleted k =>
      rw [Change.callback, Change.callbackAt, Change.callbackAt, hpath k (by simp [Change.touches, Change.effect])]
  | moved src dst file =>
      have hapart : src ≠ dst := hc.apart src dst file rfl
      rw [Change.callback, Change.callbackAt, Change.callbackAt, hpath src (by simp [Change.touches, Change.effect, hapart.symm]),
        hpath dst (by simp [Change.touches, Change.effect])]

theorem IsPath.head (h : IsPath key) : key.head? ≠ some (cp '/') := by
  obtain ⟨names, _, hproper, rfl⟩ := h
  exact head_relKey hproper

theorem absPath_eq_iff (h : IsPath key) (h' : IsPath key') : watch.absPath key = watch.absPath key' ↔ key = key' :=
  ⟨absPath_inj h h', fun heq => by rw [heq]⟩

/-- A callback is an arrival at the path of a key exactly if its change leaves a file there. -/
theorem arrives_iff (hc : change.Proper) (h : IsPath key) :
    (change.callback watch).arrives (watch.absPath key) = true ↔ ∃ file, change.effect key = some (some file) := by
  have hsingle : ∀ k (file : LocalFile), IsPath k → (decide (watch.absPath k = watch.absPath key) = true ↔
      ∃ file', (if k = key then some (some file) else none) = some (some file')) := by
    intro k file hk
    rw [decide_eq_true_iff, absPath_eq_iff hk h]
    by_cases heq : k = key
    · rw [if_pos heq]
      exact ⟨fun _ => ⟨file, rfl⟩, fun _ => heq⟩
    · rw [if_neg heq]
      exact ⟨fun hk' => absurd hk' heq, fun ⟨_, hsome⟩ => by cases hsome⟩
  rw [callback_eq hc]
  cases change with
  | created k file => exact hsingle k file (hc.paths k (by simp [Change.touches, Change.effect]))
  | modified k file => exact hsingle k file (hc.paths k (by simp [Change.touches, Change.effect]))
  | deleted k =>
      refine ⟨fun harrives => (by cases harrives), fun ⟨file, heffect⟩ => ?_⟩
      rw [Change.effect] at heffect
      split at heffect <;> cases heffect
  | moved src dst file =>
      have hdst := hsingle dst file (hc.paths dst (by simp [Change.touches, Change.effect]))
      refine hdst.trans ?_
      rw [Change.effect]
      by_cases heq : dst = key
      · rw [if_pos heq, if_pos heq]
      · rw [if_neg heq, if_neg heq]
        refine ⟨fun ⟨_, hsome⟩ => (by cases hsome), fun ⟨_, hsome⟩ => ?_⟩
        split at hsome <;> cases hsome

/-- It is a departure exactly if its change leaves nothing there. -/
theorem leaves_iff (hc : change.Proper) (h : IsPath key) :
    (change.callback watch).leaves (watch.absPath key) = true ↔ change.effect key = some none := by
  rw [callback_eq hc]
  cases change with
  | created k file =>
      refine ⟨fun hleaves => (by cases hleaves), fun heffect => ?_⟩
      rw [Change.effect] at heffect
      split at heffect <;> cases heffect
  | modified k file =>
      refine ⟨fun hleaves => (by cases hleaves), fun heffect => ?_⟩
      rw [Change.effect] at heffect
      split at heffect <;> cases heffect
  | deleted k =>
      have hk : IsPath k := hc.paths k (by simp [Change.touches, Change.effect])
      show decide (watch.absPath k = watch.absPath key) = true ↔ (if k = key then some none else none) = some none
      rw [decide_eq_true_iff, absPath_eq_iff hk h]
      by_cases heq : k = key
      · rw [if_pos heq]
        exact ⟨fun _ => rfl, fun _ => heq⟩
      · rw [if_neg heq]
        exact ⟨fun hk' => absurd hk' heq, fun hsome => by cases hsome⟩
  | moved src dst file =>
      have hapart : src ≠ dst := hc.apart src dst file rfl
      have hsrc : IsPath src := hc.paths src (by simp [Change.touches, Change.effect, hapart.symm])
      show decide (watch.absPath src = watch.absPath key) = true ↔
        (if dst = key then some (some file) else if src = key then some none else none) = some none
      rw [decide_eq_true_iff, absPath_eq_iff hsrc h]
      by_cases hd : dst = key
      · rw [if_pos hd]
        exact ⟨fun hs => absurd (hs.trans hd.symm) hapart, fun hsome => by cases hsome⟩
      · rw [if_neg hd]
        by_cases hs : src = key
        · rw [if_pos hs]
          exact ⟨fun _ => rfl, fun _ => hs⟩
        · rw [if_neg hs]
          exact ⟨fun hk' => absurd hk' hs, fun hsome => by cases hsome⟩

/-- A callback touches the path of a key exactly if its change is about the key. -/
theorem touches_iff (hc : change.Proper) (h : IsPath key) :
    (change.callback watch).touches (watch.absPath key) = true ↔ change.touches key = true := by
  rw [Callback.touches, Bool.or_eq_true, arrives_iff hc h, leaves_iff hc h, Change.touches]
  cases heffect : change.effect key with
  | none =>
      refine ⟨fun hor => ?_, fun hnone => (by cases hnone)⟩
      rcases hor with ⟨_, hsome⟩ | hsome <;> cases hsome
  | some found =>
      refine ⟨fun _ => rfl, fun _ => ?_⟩
      cases found with
      | none => exact Or.inr rfl
      | some file => exact Or.inl ⟨file, rfl⟩

/-- A delete event is put by a departure only. -/
theorem leaves_of_put {c : Callback} {item : WorkItem} (h : Action.put item ∈ c.body) :
    ∃ path, item = .delete path ∧ isCatalogable path = true ∧ c.leaves path = true := by
  cases c with
  | created event | modified event =>
      rw [Callback.body] at h
      split at h <;> simp at h
  | deleted event =>
      rw [Callback.body] at h
      split at h
      · rename_i hcond
        rw [Bool.and_eq_true] at hcond
        have hitem : item = .delete event.srcPath := by simpa using h
        exact ⟨event.srcPath, hitem, hcond.2, by rw [Callback.leaves, hcond.1]; simp⟩
      · cases h
  | moved event =>
      rw [Callback.body] at h
      split at h
      · cases h
      · rename_i hfile
        have hput : item = .delete event.srcPath ∧ isCatalogable event.srcPath = true := by
          rcases List.mem_append.mp h with h | h
          · split at h
            · rename_i hsrc
              exact ⟨by simpa using h, hsrc⟩
            · cases h
          · split at h <;> simp at h
        refine ⟨event.srcPath, hput.1, hput.2, ?_⟩
        rw [Callback.leaves]
        simp [hfile]

end Callbacks

end McapCatalog.WatchPath
