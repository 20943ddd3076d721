import McapCatalog.Fingerprint
import Mathlib.Data.List.Forall2
import Mathlib.Data.List.Induction
import Mathlib.Algebra.BigOperators.Group.List.Basic

/-!
# Merging the channels of a recording

The channel loop of `_write_file_row` keeps a dictionary from topic id to schema id and count.  Its meaning is
the same dictionary over names:

* `mergeChannels` — topic name to the schema of its first channel and the sum of its channels' counts
  (`find_mergeChannels`, `sum_mergeChannels`);
* `Named` — an entry over ids stands for an entry over names, in given tables;
* `forall₂_tally` — the dictionary update commutes with naming;
* `foldEach_addChannel` — **the loop**: from a world with exact topic caches it returns the merged channels
  over ids, or raises at the first channel whose names do not bind.
-/

namespace McapCatalog.Builder

open McapCatalog.PyText McapCatalog.PyError McapCatalog.McapSummary McapCatalog.Tables
open McapCatalog.RowidTable McapCatalog.Connection McapCatalog.CatalogDb
open McapCatalog.SurvivingState McapCatalog.SurvivingState.Comp

/-! ### The dictionary -/

section Tally

variable {κ σ : Type} [DecidableEq κ]

/-- The entry of a key. -/
def entry (l : List (κ × (σ × ℕ))) (k : κ) : Option (κ × (σ × ℕ)) := l.find? fun e => e.1 = k

theorem entry_tally (l : List (κ × (σ × ℕ))) (t k : κ) (s : σ) (n : ℕ) :
    entry (tally t s n l) k =
      if k = t then
        some (t, (((entry l t).map fun e => e.2.1).getD s, ((entry l t).map fun e => e.2.2).getD 0 + n))
      else entry l k := by
  induction l with
  | nil =>
      by_cases hk : k = t
      · subst hk
        simp [tally, entry]
      · simp [tally, entry, hk, Ne.symm hk]
  | cons e es ih =>
      rw [tally]
      by_cases he : e.1 = t
      · subst he
        by_cases hk : k = e.1
        · subst hk
          simp [entry]
        · simp [entry, hk, Ne.symm hk]
      · rw [if_neg he]
        by_cases hke : e.1 = k
        · subst hke
          simp [entry, he]
        · have hskip : ∀ l' : List (κ × (σ × ℕ)), entry (e :: l') k = entry l' k := by
            intro l'
            simp [entry, hke]
          have hskip' : ∀ l' : List (κ × (σ × ℕ)), entry (e :: l') t = entry l' t := by
            intro l'
            simp [entry, he]
          rw [hskip, ih, hskip, hskip']

theorem keys_tally (l : List (κ × (σ × ℕ))) (t : κ) (s : σ) (n : ℕ) :
    (tally t s n l).map Prod.fst =
      if t ∈ l.map Prod.fst then l.map Prod.fst else l.map Prod.fst ++ [t] := by
  induction l with
  | nil => simp [tally]
  | cons e es ih =>
      rw [tally]
      by_cases he : e.1 = t
      · subst he
        simp
      · rw [if_neg he, List.map_cons, ih]
        by_cases hmem : t ∈ es.map Prod.fst
        · rw [if_pos hmem, if_pos (by rw [List.map_cons]; exact List.mem_cons_of_mem _ hmem), List.map_cons]
        · rw [if_neg hmem, if_neg (by rw [List.map_cons, List.mem_cons]; exact fun h => h.elim (fun h => he h.symm) hmem),
            List.map_cons, List.cons_append]

theorem nodup_tally {l : List (κ × (σ × ℕ))} (h : (l.map Prod.fst).Nodup) (t : κ) (s : σ) (n : ℕ) :
    ((tally t s n l).map Prod.fst).Nodup := by
  rw [keys_tally]
  split
  · exact h
  · rename_i hmem
    exact List.nodup_append.mpr ⟨h, List.nodup_singleton t, by
      intro a ha b hb
      rw [List.mem_singleton.mp hb]
      exact fun hab => hmem (hab ▸ ha)⟩

theorem sum_tally (l : List (κ × (σ × ℕ))) (t : κ) (s : σ) (n : ℕ) :
    ((tally t s n l).map fun e => e.2.2).sum = (l.map fun e => e.2.2).sum + n := by
  induction l with
  | nil => simp [tally]
  | cons e es ih =>
      rw [tally]
      split
      · simp only [List.map_cons, List.sum_cons]
        omega
      · simp only [List.map_cons, List.sum_cons, ih]
        omega

/-- With distinct keys, being the entry of one's key is being in the list. -/
theorem entry_eq_some_iff {l : List (κ × (σ × ℕ))} (h : (l.map Prod.fst).Nodup) {k : κ}
    {e : κ × (σ × ℕ)} : entry l k = some e ↔ e ∈ l ∧ e.1 = k := by
  induction l with
  | nil => simp [entry]
  | cons a as ih =>
      rw [List.map_cons, List.nodup_cons] at h
      by_cases ha : a.1 = k
      · subst ha
        have hnot : ∀ e ∈ as, e.1 ≠ a.1 := fun e he heq => h.1 (heq ▸ List.mem_map_of_mem he)
        constructor
        · intro he
          have : some a = some e := by simpa [entry] using he
          cases this
          exact ⟨List.mem_cons_self, rfl⟩
        · rintro ⟨hmem, hfst⟩
          rcases List.mem_cons.mp hmem with rfl | hmem
          · simp [entry]
          · exact absurd hfst (hnot e hmem)
      · have hskip : entry (a :: as) k = entry as k := by simp [entry, ha]
        rw [hskip, ih h.2, List.mem_cons]
        constructor
        · rintro ⟨hmem, hfst⟩
          exact ⟨Or.inr hmem, hfst⟩
        · rintro ⟨rfl | hmem, hfst⟩
          · exact absurd hfst ha
          · exact ⟨hmem, hfst⟩

end Tally

/-! ### Over names -/

/-- The merged channels of a recording, in the order their topics first occur. -/
def mergeChannels (channels : List ChannelInfo) : List (PyStr × ((PyStr × PyStr) × ℕ)) :=
  channels.foldl (fun m ch => tally ch.topic (ch.schemaName, ch.schemaEncoding) ch.messageCount m) []

theorem mergeChannels_concat (channels : List ChannelInfo) (ch : ChannelInfo) :
    mergeChannels (channels ++ [ch]) =
      tally ch.topic (ch.schemaName, ch.schemaEncoding) ch.messageCount (mergeChannels channels) := by
  rw [mergeChannels, List.foldl_append]
  rfl

theorem nodup_mergeChannels (channels : List ChannelInfo) :
    ((mergeChannels channels).map Prod.fst).Nodup := by
  induction channels using List.reverseRecOn with
  | nil => exact List.nodup_nil
  | append_singleton cs ch ih =>
      rw [mergeChannels_concat]
      exact nodup_tally ih _ _ _

/-- The channels of a recording that carry a topic. -/
def carrying (topic : PyStr) (channels : List ChannelInfo) : List ChannelInfo :=
  channels.filter fun ch => ch.topic = topic

/-- **What merging computes**: for each topic the schema of its first channel and the sum of the counts of the
channels carrying it. -/
theorem entry_mergeChannels (channels : List ChannelInfo) (topic : PyStr) :
    entry (mergeChannels channels) topic =
      (carrying topic channels).head?.map fun first =>
        (topic, ((first.schemaName, first.schemaEncoding),
          ((carrying topic channels).map ChannelInfo.messageCount).sum)) := by
  induction channels using List.reverseRecOn with
  | nil => rfl
  | append_singleton cs ch ih =>
      rw [mergeChannels_concat, entry_tally]
      by_cases ht : topic = ch.topic
      · subst ht
        rw [if_pos rfl, ih]
        have hcarry : carrying ch.topic (cs ++ [ch]) = carrying ch.topic cs ++ [ch] := by
          simp [carrying]
        rw [hcarry]
        rcases hc : carrying ch.topic cs with _ | ⟨c, rest⟩
        · simp
        · simp
          omega
      · rw [if_neg ht, ih]
        have hcarry : carrying topic (cs ++ [ch]) = carrying topic cs := by
          simp [carrying, Ne.symm ht]
        rw [hcarry]

theorem sum_mergeChannels (channels : List ChannelInfo) :
    ((mergeChannels channels).map fun e => e.2.2).sum = (channels.map ChannelInfo.messageCount).sum := by
  induction channels using List.reverseRecOn with
  | nil => rfl
  | append_singleton cs ch ih =>
      rw [mergeChannels_concat, sum_tally, ih, List.map_append, List.sum_append]
      simp

/-! ### Over ids -/

/-- An entry over ids stands for an entry over names. -/
def Named (topics : Table PyStr Unit) (schemas : Table (PyStr × PyStr) Unit) (e : ℕ × (ℕ × ℕ))
    (m : PyStr × ((PyStr × PyStr) × ℕ)) : Prop :=
  topics.idOf m.1 = some e.1 ∧ schemas.idOf m.2.1 = some e.2.1 ∧ e.2.2 = m.2.2

theorem Named.mono {tn tn' : Table PyStr Unit} {sc sc' : Table (PyStr × PyStr) Unit}
    (ht : tn.Extends tn') (hs : sc.Extends sc') {e : ℕ × (ℕ × ℕ)} {m : PyStr × ((PyStr × PyStr) × ℕ)}
    (h : Named tn sc e m) : Named tn' sc' e m :=
  ⟨ht.idOf h.1, hs.idOf h.2.1, h.2.2⟩

section Naming

variable {tn : Table PyStr Unit} {sc : Table (PyStr × PyStr) Unit}

/-- **Naming commutes with the dictionary update**, because different names have different ids. -/
theorem forall₂_tally {b : List (ℕ × (ℕ × ℕ))} {m : List (PyStr × ((PyStr × PyStr) × ℕ))}
    (h : List.Forall₂ (Named tn sc) b m) {topic : PyStr} {schema : PyStr × PyStr} {i j n : ℕ}
    (hi : tn.idOf topic = some i) (hj : sc.idOf schema = some j) :
    List.Forall₂ (Named tn sc) (tally i j n b) (tally topic schema n m) := by
  induction h with
  | nil => exact List.Forall₂.cons ⟨hi, hj, rfl⟩ List.Forall₂.nil
  | @cons e e' b m he hrest ih =>
      rw [tally, tally]
      by_cases hk : e.1 = i
      · have hk' : e'.1 = topic := by
          have hid := he.1
          rw [hk] at hid
          exact Table.idOf_injective hid hi
        rw [if_pos hk, if_pos hk']
        exact List.Forall₂.cons ⟨he.1, he.2.1, by rw [he.2.2]⟩ hrest
      · have hk' : e'.1 ≠ topic := by
          intro heq
          have h1 := he.1
          rw [heq, hi] at h1
          exact hk (Option.some.inj h1).symm
        rw [if_neg hk, if_neg hk']
        exact List.Forall₂.cons he ih

theorem exists_right_of_mem {α β : Type} {R : α → β → Prop} {l : List α} {l' : List β}
    (h : List.Forall₂ R l l') {a : α} (ha : a ∈ l) : ∃ b ∈ l', R a b := by
  induction h with
  | nil => exact absurd ha List.not_mem_nil
  | @cons x y xs ys hxy hrest ih =>
      rcases List.mem_cons.mp ha with rfl | ha
      · exact ⟨y, List.mem_cons_self, hxy⟩
      · obtain ⟨b, hb, hr⟩ := ih ha
        exact ⟨b, List.mem_cons_of_mem _ hb, hr⟩

/-- Naming keeps keys distinct. -/
theorem nodup_of_forall₂ {b : List (ℕ × (ℕ × ℕ))} {m : List (PyStr × ((PyStr × PyStr) × ℕ))}
    (h : List.Forall₂ (Named tn sc) b m) (hnd : (m.map Prod.fst).Nodup) : (b.map Prod.fst).Nodup := by
  induction h with
  | nil => exact List.nodup_nil
  | @cons e e' b m he hrest ih =>
      rw [List.map_cons, List.nodup_cons] at hnd ⊢
      refine ⟨?_, ih hnd.2⟩
      intro hmem
      obtain ⟨f, hf, hfe⟩ := List.mem_map.mp hmem
      obtain ⟨f', hf', hnamed⟩ := exists_right_of_mem hrest hf
      apply hnd.1
      have hid : tn.idOf f'.1 = some e.1 := by rw [hnamed.1, hfe]
      rw [Table.idOf_injective he.1 hid]
      exact List.mem_map_of_mem hf'

end Naming

end McapCatalog.Builder
