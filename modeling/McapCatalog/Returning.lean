import McapCatalog.Effects
import McapCatalog.Opened

/-!
# Calls that return

A call that returns has met no failing statement, so it did what it does on a connection that works.

* `Calm` — a call whose normal exit does not depend on the script; one rule for each effect.  A call that handles an
  exception of its own is not calm;
* `calm_resolveIds`, `calm_fileTransaction`, `calm_loadCaches` — the calls that read and write the lookup tables;
* `keepsCommitted_fileTransaction` — the body of the per-file transaction commits nothing.
-/

namespace McapCatalog.Builder

open McapCatalog.PyText McapCatalog.PyError McapCatalog.KeyParse McapCatalog.McapSummary McapCatalog.Storage
open McapCatalog.Tables McapCatalog.RowidTable McapCatalog.KeyedRows
open McapCatalog.Connection McapCatalog.CatalogDb
open McapCatalog.SurvivingState McapCatalog.SurvivingState.Comp

/-- What the call does when it returns, it does on a connection that works. -/
def Calm {α : Type} (m : Py α) : Prop :=
  ∀ w a w', m w = (.ok a, w') → m (scripted w []) = (.ok a, scripted w' [])

theorem quiet_scripted (w : World) : (scripted w []).Quiet := rfl

section Rules

variable {α β : Type}

theorem calm_pure (a : α) : Calm (pure a : Py α) := by
  intro w a' w' h
  cases h
  rfl

theorem calm_raise (e : PyErr) : Calm (raise e : Py α) := by
  intro w a' w' h
  cases h

theorem calm_tick : Calm tick := by
  intro w a' w' h
  cases h
  rfl

theorem Calm.bind {m : Py α} {f : α → Py β} (hm : Calm m) (hf : ∀ a, Calm (f a)) : Calm (m >>= f) := by
  intro w b w' h
  obtain ⟨a, w₁, hrun, hrest⟩ := bind_eq_ok h
  rw [bind_of_ok (hm w a w₁ hrun)]
  exact hf a w₁ b w' hrest

/-- What follows a look at the world may not depend on the script. -/
theorem calm_look {f : World → Py α} (hf : ∀ w, Calm (f w)) (hread : ∀ w, f (scripted w []) = f w) :
    Calm (look >>= f) := by
  intro w a w' h
  rw [bind_of_ok (look_apply w)] at h
  rw [bind_of_ok (look_apply _), hread]
  exact hf w w a w' h

theorem calm_change {f : World → World} (h : ∀ w, f (scripted w []) = scripted (f w) []) :
    Calm (change f : Py Unit) := by
  intro w a w' hrun
  cases hrun
  rw [change_apply, h]

theorem calm_each {f : α → Py Unit} (h : ∀ a, Calm (f a)) : ∀ as : List α, Calm (each f as)
  | [] => calm_pure ()
  | a :: as => (h a).bind fun _ => calm_each h as

theorem calm_foldEach {f : β → α → Py β} (h : ∀ b a, Calm (f b a)) : ∀ (as : List α) (b : β), Calm (foldEach f b as)
  | [], b => calm_pure b
  | a :: as, b => (h b a).bind fun b' => calm_foldEach h as b'

/-- **A statement that returns** was not scripted to fail. -/
theorem calm_statement (params : List Param) (run : Db → Except PyErr (α × Db)) : Calm (statement params run) := by
  intro w a w' h
  unfold statement at h ⊢
  rcases hnext : w.conn.next with ⟨fault, conn⟩
  have hhush : (scripted w []).conn.next = (none, { w.conn with faults := [] }) := rfl
  rw [hnext] at h
  rw [hhush]
  cases fault with
  | some fault => cases h
  | none =>
      have hconn := working_next (c := w.conn) (by rw [hnext])
      rw [hnext] at hconn
      dsimp only at h hconn ⊢
      cases hb : bindError params with
      | some e => rw [hb] at h; cases h
      | none =>
          rw [hb] at h
          dsimp only at h ⊢
          rw [hconn.1] at h
          cases hr : run w.conn.working with
          | error e => rw [hr] at h; cases h
          | ok out =>
              rw [hr] at h
              cases h
              show (_, _) = (_, _)
              rw [scripted, scripted]
              simp only [hconn.2]

theorem calm_commit : Calm commit := by
  intro w a w' h
  unfold commit at h ⊢
  rcases hnext : w.conn.next with ⟨fault, conn⟩
  have hhush : (scripted w []).conn.next = (none, { w.conn with faults := [] }) := rfl
  rw [hnext] at h
  rw [hhush]
  cases fault with
  | some fault => cases h
  | none =>
      have hconn := working_next (c := w.conn) (by rw [hnext])
      rw [hnext] at hconn
      dsimp only at hconn
      cases h
      show (_, _) = (_, _)
      rw [scripted, scripted]
      simp only [hconn.1]

theorem calm_query (params : List Param) (read : Db → α) : Calm (query params read) := calm_statement _ _

theorem calm_queryId (params : List Param) (read : Db → Option ℕ) : Calm (queryId params read) :=
  (calm_query params read).bind fun found => by
    cases found with
    | none => exact calm_raise _
    | some i => exact calm_pure i

theorem calm_nowNs (env : Env) : Calm (nowNs env) := calm_tick.bind fun _ => calm_pure _

/-! ### The calls on the lookup tables -/

theorem calm_resolveLookup {κ : Type} [DecidableEq κ] (L : Lookup κ) (key : κ) : Calm (resolveLookup L key) := by
  refine calm_look (fun w => ?_) fun _ => rfl
  cases L.cache w.caches key with
  | some i => exact calm_pure i
  | none =>
      exact Calm.bind (calm_statement _ _) fun _ => (calm_queryId _ _).bind fun i =>
        (calm_change fun _ => rfl).bind fun _ => calm_pure i

theorem calm_resolveIds (dims : Dims) : Calm (resolveIds dims) :=
  (calm_resolveLookup _ _).bind fun _ => (calm_resolveLookup _ _).bind fun _ => (calm_resolveLookup _ _).bind fun _ =>
    (calm_resolveLookup _ _).bind fun _ => calm_commit.bind fun _ => calm_pure _

theorem calm_loadCaches : Calm loadCaches :=
  (calm_query _ _).bind fun _ => (calm_query _ _).bind fun _ => (calm_query _ _).bind fun _ =>
    (calm_query _ _).bind fun _ => (calm_query _ _).bind fun _ => (calm_query _ _).bind fun _ =>
      (calm_query _ _).bind fun _ => calm_pure _

theorem calm_resolveTopicSet (fingerprint : PyStr) (members : List (ℕ × ℕ)) :
    Calm (resolveTopicSet fingerprint members) := by
  have hremember : ∀ i, Calm (rememberTopicSet fingerprint i) := fun i => calm_change fun _ => rfl
  have hstore : Calm (do
      executeChecked [.text fingerprint] (insertTopicSet fingerprint)
      let setId ← queryId [.text fingerprint] fun db => db.topicSets.idOf fingerprint
      each (fun m => executeChecked [] (Db.insertMember setId m.1 m.2)) members
      rememberTopicSet fingerprint setId
      pure setId) :=
    Calm.bind (calm_statement _ _) fun _ => (calm_queryId _ _).bind fun _ =>
      Calm.bind (calm_each (fun _ => calm_statement _ _) _) fun _ => (hremember _).bind fun _ => calm_pure _
  refine calm_look (fun w => ?_) fun _ => rfl
  dsimp only
  cases w.caches.topicSet fingerprint with
  | some i => exact calm_pure i
  | none =>
      refine (calm_query _ _).bind fun found => ?_
      cases found with
      | some i => exact (hremember i).bind fun _ => calm_pure i
      | none =>
          dsimp only
          split
          · exact (calm_raise _).bind fun _ => hstore
          · exact hstore

theorem calm_storeFile (env : Env) (ids : Ids) (written : Written) (setId : ℕ) (counts : List ℕ) :
    Calm (storeFile env ids written setId counts) :=
  (calm_nowNs env).bind fun _ => Calm.bind (calm_statement _ _) fun _ => (calm_queryId _ _).bind fun _ =>
    Calm.bind (calm_statement _ _) fun _ => Calm.bind (calm_each (fun _ => calm_statement _ _) _) fun _ =>
      Calm.bind (calm_statement _ _) fun _ => calm_statement _ _

theorem calm_fileTransaction (env : Env) (ids : Ids) (written : Written) : Calm (fileTransaction env ids written) := by
  refine Calm.bind (calm_foldEach (fun _ _ => (calm_resolveLookup _ _).bind fun _ =>
    (calm_resolveLookup _ _).bind fun _ => calm_pure _) _ _) fun byTopic => (calm_resolveTopicSet _ _).bind fun setId => ?_
  dsimp only
  split
  · exact (calm_raise _).bind fun _ => calm_storeFile env ids written _ _
  · exact calm_storeFile env ids written _ _

end Rules

/-! ### The body of the per-file transaction -/

/-- **The body of the transaction commits nothing.** -/
theorem keepsCommitted_fileTransaction (env : Env) (ids : Ids) (written : Written) :
    KeepsCommitted (fileTransaction env ids written) := by
  intro w _
  have hI : Writes (fun db _ _ => db = w.conn.committed) Set.univ :=
    { rollBack := fun _ _ _ h => h
      beside := fun h _ => h
      upsert := fun _ _ h => h
      hasError := fun _ _ _ _ _ h => h
      setCaches := fun _ h => h }
  exact ⟨trivial, ((keeps_fileTransaction hI ids (Set.mem_univ written)).after ⟨rfl, Nat.zero_le _⟩).inv⟩

end McapCatalog.Builder
