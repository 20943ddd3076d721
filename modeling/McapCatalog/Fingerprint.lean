import McapCatalog.Resolvers
import Mathlib.Data.List.Sort

/-!
# Topic-set fingerprints

A topic set is found again by the hash of its sorted members, written as JSON.

* `sortPairs_strict`, `sortPairs_eq_self` — sorting members with distinct topics;
* `jsonPairs_injective` — the JSON text determines the members;
* `FingerprintInjective`, `fingerprint_inj` — if SHA-256 does not collide on those texts, the fingerprint
  determines the sorted members;
* `digestAt` — a digest that is given on one text and cannot collide on the hashed ones.
-/

namespace McapCatalog.Builder

open McapCatalog.PyText McapCatalog.PyError McapCatalog.CatalogDb McapCatalog.Connection

/-! ### Sorted members -/

theorem sortPairs_perm (l : List (ℕ × ℕ)) : (sortPairs l).Perm l := List.perm_insertionSort _ l

/-- A list with increasing first components is sorted. -/
theorem sortPairs_eq_self {l : List (ℕ × ℕ)} (h : l.Pairwise fun p q => p.1 < q.1) : sortPairs l = l :=
  List.Pairwise.insertionSort_eq (h.imp fun hlt => Or.inl hlt)

/-- Members with distinct topics come out in increasing topic order. -/
theorem sortPairs_strict {l : List (ℕ × ℕ)} (h : (l.map Prod.fst).Nodup) :
    (sortPairs l).Pairwise fun p q => p.1 < q.1 := by
  have htot : Std.Total pairLe := by
    constructor
    intro p q
    show (p.1 < q.1 ∨ p.1 = q.1 ∧ p.2 ≤ q.2) ∨ (q.1 < p.1 ∨ q.1 = p.1 ∧ q.2 ≤ p.2)
    omega
  have htrans : IsTrans (ℕ × ℕ) pairLe := by
    constructor
    intro p q r hpq hqr
    have hpq' : p.1 < q.1 ∨ p.1 = q.1 ∧ p.2 ≤ q.2 := hpq
    have hqr' : q.1 < r.1 ∨ q.1 = r.1 ∧ q.2 ≤ r.2 := hqr
    show p.1 < r.1 ∨ p.1 = r.1 ∧ p.2 ≤ r.2
    omega
  have hle : (sortPairs l).Pairwise pairLe := List.pairwise_insertionSort _ l
  have hnd : ((sortPairs l).map Prod.fst).Nodup := ((sortPairs_perm l).map _).nodup_iff.mpr h
  have hne : (sortPairs l).Pairwise fun p q => p.1 ≠ q.1 := List.pairwise_map.mp hnd
  exact (hle.and hne).imp fun {p q} hpq => by
    have hpq' : p.1 < q.1 ∨ p.1 = q.1 ∧ p.2 ≤ q.2 := hpq.1
    have := hpq.2
    omega

/-! ### The JSON text -/

/-- A member's text delimits itself. -/
theorem jsonPair_append_inj {p q : ℕ × ℕ} {s t : PyStr} (h : jsonPair p ++ s = jsonPair q ++ t) :
    p = q ∧ s = t := by
  have hcomma : isDigit (cp ',') = false := by decide
  have hclose : isDigit (cp ']') = false := by decide
  have h1 : decimal p.1 ++ cp ',' :: (decimal p.2 ++ cp ']' :: s) =
      decimal q.1 ++ cp ',' :: (decimal q.2 ++ cp ']' :: t) := by
    have hopen : py "[" = [cp '['] := rfl
    have hc : py "," = [cp ','] := rfl
    have hb : py "]" = [cp ']'] := rfl
    simpa only [jsonPair, hopen, hc, hb, List.append_assoc, List.singleton_append, List.cons_append,
      List.nil_append, List.cons.injEq, true_and] using h
  obtain ⟨hfst, h2⟩ := decimal_append_inj hcomma hcomma h1
  rw [List.cons.injEq] at h2
  obtain ⟨hsnd, h3⟩ := decimal_append_inj hclose hclose h2.2
  rw [List.cons.injEq] at h3
  exact ⟨Prod.ext hfst hsnd, h3.2⟩

theorem jsonRest_injective : Function.Injective jsonRest := by
  intro l
  induction l with
  | nil =>
      intro l' h
      cases l' with
      | nil => rfl
      | cons q qs =>
          have hhead : some (cp ']') = some (cp ',') := congrArg List.head? h
          exact absurd hhead (by decide)
  | cons p ps ih =>
      intro l' h
      cases l' with
      | nil =>
          have hhead : some (cp ',') = some (cp ']') := congrArg List.head? h
          exact absurd hhead (by decide)
      | cons q qs =>
          obtain ⟨rfl, hrest⟩ := jsonPair_append_inj (List.append_cancel_left h)
          rw [ih hrest]

/-- **The JSON text determines the members.** -/
theorem jsonPairs_injective : Function.Injective jsonPairs := by
  intro l l' h
  cases l with
  | nil =>
      cases l' with
      | nil => rfl
      | cons q qs =>
          have hsnd : some (cp ']') = some (cp '[') := congrArg (fun s => s[1]?) h
          exact absurd hsnd (by decide)
  | cons p ps =>
      cases l' with
      | nil =>
          have hsnd : some (cp '[') = some (cp ']') := congrArg (fun s => s[1]?) h
          exact absurd hsnd (by decide)
      | cons q qs =>
          obtain ⟨rfl, hrest⟩ := jsonPair_append_inj (List.append_cancel_left h)
          rw [jsonRest_injective hrest]

/-- SHA-256 does not collide on the texts that are hashed. -/
def FingerprintInjective (env : Env) : Prop := Set.InjOn env.sha256 (Set.range jsonPairs)

/-- **The fingerprint determines the sorted members.** -/
theorem fingerprint_inj {env : Env} (hinj : FingerprintInjective env) {m m' : List (ℕ × ℕ)}
    (h : computeSetFingerprint env m = computeSetFingerprint env m') : sortPairs m = sortPairs m' :=
  jsonPairs_injective (hinj ⟨_, rfl⟩ ⟨_, rfl⟩ h)

/-! ### Digests on chosen texts -/

theorem encodable_jsonPairs (l : List (ℕ × ℕ)) : encodable (jsonPairs l) = true := by
  have h1 : encodable (py "[") = true := by decide
  have h2 : encodable (py "]") = true := by decide
  have h3 : encodable (py ",") = true := by decide
  have hpair : ∀ p, encodable (jsonPair p) = true := by
    intro p
    simp only [jsonPair, encodable_append, h1, h2, h3, encodable_decimal, Bool.and_self]
  have hrest : ∀ l, encodable (jsonRest l) = true := by
    intro l
    induction l with
    | nil => exact h2
    | cons p ps ih => simp only [jsonRest, encodable_append, h3, hpair, ih, Bool.and_self]
  cases l with
  | nil => decide
  | cons p ps => simp only [jsonPairs, encodable_append, h1, hpair, hrest, Bool.and_self]

/-- A digest that is given on one text and marks every other text with an `x`, which no hexadecimal digest
starts with. -/
def digestAt (text digest s : PyStr) : PyStr :=
  if s = text then digest else if encodable s then py "x" ++ s else py "x"

theorem encodable_digestAt {text digest : PyStr} (h : encodable digest = true) (s : PyStr) :
    encodable (digestAt text digest s) = true := by
  have hx : encodable (py "x") = true := by decide
  unfold digestAt
  split
  · exact h
  · split
    · rename_i hs
      rw [encodable_append, hx, hs]
      rfl
    · exact hx

/-- Such a digest does not collide on the hashed texts. -/
theorem injOn_digestAt {text digest : PyStr} (h : digest.head? ≠ some (cp 'x')) :
    Set.InjOn (digestAt text digest) (Set.range jsonPairs) := by
  have hmark : ∀ l, jsonPairs l ≠ text → digestAt text digest (jsonPairs l) = py "x" ++ jsonPairs l := by
    intro l hl
    rw [digestAt, if_neg hl, if_pos (encodable_jsonPairs l)]
  have hat : digestAt text digest text = digest := if_pos rfl
  have hclash : ∀ s, digest ≠ py "x" ++ s := by
    intro s heq
    rw [heq] at h
    exact h rfl
  rintro _ ⟨l, rfl⟩ _ ⟨l', rfl⟩ heq
  by_cases hl : jsonPairs l = text
  · by_cases hl' : jsonPairs l' = text
    · rw [hl, hl']
    · rw [hl, hat, hmark l' hl'] at heq
      exact absurd heq (hclash _)
  · by_cases hl' : jsonPairs l' = text
    · rw [hl', hat, hmark l hl] at heq
      exact absurd heq.symm (hclash _)
    · rw [hmark l hl, hmark l' hl'] at heq
      exact List.append_cancel_left heq

/-- An environment whose wall clock stands still and whose digest is given on one text. -/
def envAt (text digest : PyStr) (h : encodable digest = true) : Env where
  sha256 := digestAt text digest
  timeNs _ := 1700000000000000000
  monotonic t := t
  encodable_sha256 := encodable_digestAt h
  timeNs_pos _ := by decide
  timeNs_lt _ := by decide

/-- The environment of the examples: the SHA-256 of the set with one topic and one schema. -/
def oneTopicEnv : Env :=
  envAt (jsonPairs [(1, 1)]) (py "5cc6a8a697bb6f2fcb468ef02cf2a76e9ad3f5da223682f1ca29288836ee66b3") (by decide)

theorem fingerprintInjective_oneTopicEnv : FingerprintInjective oneTopicEnv := injOn_digestAt (by decide)

end McapCatalog.Builder
