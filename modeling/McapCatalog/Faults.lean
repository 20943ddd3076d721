import McapCatalog.TagEdits

/-!
# Statements that may fail

The laws of the connection's calls under any script of failures.  A call that returned did what it does on a connection
that works; a call that raised left nothing new, or the open transaction dropped (`Untouched`).

* `statement_of_ok`, `statement_of_error` — one statement; `withConn_of_ok`, `withConn_of_error` — one transaction;
* `KeepsCommitted` — calls that leave what is committed alone, whichever way they exit;
* `updateTags_of_ok`, `updateTags_of_error` — **a tag edit is committed as a whole or leaves nothing.**
-/

namespace McapCatalog.Builder

open McapCatalog.PyText McapCatalog.PyError McapCatalog.Tables McapCatalog.RowidTable McapCatalog.KeyedRows
open McapCatalog.Connection McapCatalog.CatalogDb
open McapCatalog.SurvivingState McapCatalog.SurvivingState.Comp

variable {α : Type} {w w' : World}

/-- What a failing statement leaves: nothing new, or the open transaction dropped. -/
def Untouched (before after : Conn) : Prop :=
  after.committed = before.committed ∧ (after.working = before.working ∨ after.working = before.committed)

theorem Untouched.refl (conn : Conn) : Untouched conn conn := ⟨rfl, Or.inl rfl⟩

theorem Untouched.trans {a b c : Conn} (h : Untouched a b) (h' : Untouched b c) : Untouched a c := by
  refine ⟨h'.1.trans h.1, ?_⟩
  cases h'.2 with
  | inl hw => rw [hw]; exact h.2
  | inr hc => exact Or.inr (hc.trans h.1)

/-- Taking an entry off the script. -/
theorem untouched_next (conn : Conn) : Untouched conn conn.next.2 := by
  rcases conn with ⟨committed, working, faults⟩
  cases faults with
  | nil => exact Untouched.refl _
  | cons fault faults =>
      cases fault with
      | none => exact Untouched.refl _
      | some fault =>
          cases fault with
          | keep => exact ⟨rfl, Or.inl rfl⟩
          | rollBack => exact ⟨rfl, Or.inr rfl⟩

/-- A statement that does not fail sees the connection's view. -/
theorem working_next {c : Conn} (h : c.next.1 = none) :
    c.next.2.working = c.working ∧ c.next.2.committed = c.committed := by
  rcases c with ⟨committed, working, faults⟩
  cases faults with
  | nil => exact ⟨rfl, rfl⟩
  | cons fault faults =>
      cases fault with
      | none => exact ⟨rfl, rfl⟩
      | some fault => cases fault <;> cases h

/-- **A statement that returns** ran on the connection's view and changed nothing else. -/
theorem statement_of_ok {params : List Param} {run : Db → Except PyErr (α × Db)} {a : α}
    (h : statement params run w = (.ok a, w')) :
    run w.conn.working = .ok (a, w'.conn.working) ∧ w'.conn.committed = w.conn.committed ∧ w'.clock = w.clock := by
  unfold statement at h
  rcases hnext : w.conn.next with ⟨fault, conn⟩
  rw [hnext] at h
  cases fault with
  | some fault => cases h
  | none =>
      have hconn := working_next (c := w.conn) (by rw [hnext])
      rw [hnext] at hconn
      dsimp only at h hconn
      cases hb : bindError params with
      | some e => rw [hb] at h; cases h
      | none =>
          rw [hb] at h
          dsimp only at h
          cases hr : run conn.working with
          | error e => rw [hr] at h; cases h
          | ok out =>
              rw [hr] at h
              obtain ⟨rfl, rfl⟩ := Prod.ext_iff.mp h |>.imp Except.ok.inj id
              rw [hconn.1] at hr
              exact ⟨hr, hconn.2, rfl⟩

/-- **A statement that raises** leaves nothing behind. -/
theorem statement_of_error {params : List Param} {run : Db → Except PyErr (α × Db)} {e : PyErr}
    (h : statement params run w = (.error e, w')) : Untouched w.conn w'.conn ∧ w'.clock = w.clock := by
  have hnext := untouched_next w.conn
  unfold statement at h
  rcases hn : w.conn.next with ⟨fault, conn⟩
  rw [hn] at h hnext
  cases fault with
  | some fault =>
      cases h
      exact ⟨hnext, rfl⟩
  | none =>
      dsimp only at h
      cases hb : bindError params with
      | some e =>
          rw [hb] at h
          cases h
          exact ⟨hnext, rfl⟩
      | none =>
          rw [hb] at h
          dsimp only at h
          cases hr : run conn.working with
          | error e =>
              rw [hr] at h
              cases h
              exact ⟨hnext, rfl⟩
          | ok out => rw [hr] at h; cases h

/-- A `SELECT` changes nothing, whichever way it exits. -/
theorem untouched_query {params : List Param} {read : Db → α} {r : Except PyErr α}
    (h : query params read w = (r, w')) : Untouched w.conn w'.conn ∧ w'.clock = w.clock := by
  cases r with
  | error e => exact statement_of_error h
  | ok a =>
      obtain ⟨hr, hc, ht⟩ := statement_of_ok h
      exact ⟨⟨hc, Or.inl (Prod.ext_iff.mp (Except.ok.inj hr)).2.symm⟩, ht⟩

theorem query_of_ok {params : List Param} {read : Db → α} {a : α} (h : query params read w = (.ok a, w')) :
    a = read w.conn.working ∧ w'.conn.working = w.conn.working ∧ w'.conn.committed = w.conn.committed ∧
      w'.clock = w.clock := by
  obtain ⟨hr, hc, ht⟩ := statement_of_ok h
  obtain ⟨ha, hw⟩ := Prod.ext_iff.mp (Except.ok.inj hr)
  exact ⟨ha.symm, hw.symm, hc, ht⟩

/-- A `SELECT` without parameters that the script lets pass. -/
theorem query_of_next (h : w.conn.next.1 = none) (read : Db → α) :
    query [] read w = (.ok (read w.conn.working), { w with conn := w.conn.next.2 }) := by
  have hconn := working_next h
  unfold query statement
  rcases hn : w.conn.next with ⟨fault, conn⟩
  rw [hn] at h hconn
  cases h
  dsimp only at hconn ⊢
  rw [bindError_nil, ← hconn.1]

theorem executeChecked_of_ok {params : List Param} {run : Db → Except PyErr Db} {u : Unit}
    (h : executeChecked params run w = (.ok u, w')) :
    run w.conn.working = .ok w'.conn.working ∧ w'.conn.committed = w.conn.committed := by
  obtain ⟨hr, hc, _⟩ := statement_of_ok h
  cases hrun : run w.conn.working with
  | error e => rw [hrun] at hr; cases hr
  | ok db =>
      rw [hrun] at hr
      exact ⟨congrArg Except.ok (Prod.ext_iff.mp (Except.ok.inj hr)).2, hc⟩

theorem execute_of_ok {params : List Param} {run : Db → Db} {u : Unit} (h : execute params run w = (.ok u, w')) :
    w'.conn.working = run w.conn.working ∧ w'.conn.committed = w.conn.committed := by
  obtain ⟨hrun, hcommitted, _⟩ := statement_of_ok h
  exact ⟨(Prod.ext_iff.mp (Except.ok.inj hrun)).2.symm, hcommitted⟩

/-- A call leaves what is committed alone, whichever way it exits. -/
def KeepsCommitted (m : Py α) : Prop :=
  Within (fun _ => True) (fun w w' : World => w'.conn.committed = w.conn.committed) m

theorem keepsCommitted_statement (params : List Param) (run : Db → Except PyErr (α × Db)) :
    KeepsCommitted (statement params run) := by
  intro w _
  refine ⟨trivial, ?_⟩
  rcases h : statement params run w with ⟨r, w'⟩
  cases r with
  | ok a => exact (statement_of_ok h).2.1
  | error e => exact (statement_of_error h).1.1

theorem KeepsCommitted.bind {β : Type} {m : Py α} {f : α → Py β} (hm : KeepsCommitted m)
    (hf : ∀ a, KeepsCommitted (f a)) : KeepsCommitted (m >>= f) :=
  Within.bind (R := fun w w' : World => w'.conn.committed = w.conn.committed) (fun _ _ _ h1 h2 => h2.trans h1) hm hf

theorem keepsCommitted_each {β : Type} {f : β → Py Unit} (h : ∀ b, KeepsCommitted (f b)) (bs : List β) :
    KeepsCommitted (each f bs) :=
  Within.each (R := fun w w' : World => w'.conn.committed = w.conn.committed) (fun _ => rfl)
    (fun _ _ _ h1 h2 => h2.trans h1) h bs

theorem keepsCommitted_setTag (fileId : ℕ) (now : ℤ) (kv : PyStr × PyStr) : KeepsCommitted (setTag fileId now kv) :=
  keepsCommitted_statement _ _

theorem keepsCommitted_unsetTag (fileId : ℕ) (now : ℤ) (key : PyStr) : KeepsCommitted (unsetTag fileId now key) := by
  refine KeepsCommitted.bind (keepsCommitted_statement _ _) fun embedded => ?_
  split
  · exact keepsCommitted_statement _ _
  · exact keepsCommitted_statement _ _

theorem queryId_of_ok {params : List Param} {read : Db → Option ℕ} {i : ℕ} (h : queryId params read w = (.ok i, w')) :
    read w.conn.working = some i ∧ w'.conn.working = w.conn.working ∧ w'.conn.committed = w.conn.committed := by
  obtain ⟨found, w₁, hquery, hfound⟩ := bind_eq_ok h
  obtain ⟨rfl, hworking, hcommitted, _⟩ := query_of_ok hquery
  cases hread : read w.conn.working with
  | none => rw [hread] at hfound; cases hfound
  | some j =>
      rw [hread] at hfound
      cases hfound
      exact ⟨rfl, hworking, hcommitted⟩

theorem commit_of_ok {u : Unit} (h : commit w = (.ok u, w')) :
    w'.conn.committed = w.conn.working ∧ w'.conn.working = w.conn.working ∧ w'.clock = w.clock := by
  unfold commit at h
  rcases hnext : w.conn.next with ⟨fault, conn⟩
  rw [hnext] at h
  cases fault with
  | some fault => cases h
  | none =>
      have hconn := working_next (c := w.conn) (by rw [hnext])
      rw [hnext] at hconn
      cases h
      exact ⟨hconn.1, hconn.1, rfl⟩

theorem commit_of_error {e : PyErr} (h : commit w = (.error e, w')) : Untouched w.conn w'.conn ∧ w'.clock = w.clock := by
  have hnext := untouched_next w.conn
  unfold commit at h
  rcases hn : w.conn.next with ⟨fault, conn⟩
  rw [hn] at h hnext
  cases fault with
  | some fault =>
      cases h
      exact ⟨hnext, rfl⟩
  | none => cases h

/-- A transaction, from what its body and the commit come to. -/
theorem withConn_apply {body : Py α} {out : Except PyErr α} {w₁ : World}
    (h : (body >>= fun a => commit >>= fun _ => pure a) w = (out, w₁)) :
    withConn body w = match out with
      | .ok a => (.ok a, w₁)
      | .error e => (.error e, w₁.rollBackWorking) := by
  have hatt : attempt (body >>= fun a => commit >>= fun _ => pure a) w = (.ok out, w₁) := by rw [attempt_apply, h]
  rw [withConn, bind_of_ok hatt]
  cases out <;> rfl

/-- **A transaction that returns** has committed the view of its body. -/
theorem withConn_of_ok {body : Py α} {a : α} (h : withConn body w = (.ok a, w')) :
    ∃ w₁, body w = (.ok a, w₁) ∧ commit w₁ = (.ok (), w') := by
  rcases hout : (body >>= fun a => commit >>= fun _ => pure a) w with ⟨out, w₂⟩
  rw [withConn_apply hout] at h
  cases out with
  | error e => cases h
  | ok b =>
      cases h
      obtain ⟨b, w₁, hbody, hrest⟩ := bind_eq_ok hout
      obtain ⟨u, w₃, hcommit, hpure⟩ := bind_eq_ok hrest
      cases hpure
      exact ⟨w₁, hbody, hcommit⟩

/-- **A transaction that raises** leaves the connection at what is committed. -/
theorem withConn_of_error {body : Py α} (hbody : KeepsCommitted body) {e : PyErr}
    (h : withConn body w = (.error e, w')) :
    w'.conn.committed = w.conn.committed ∧ w'.conn.working = w.conn.committed := by
  rcases hout : (body >>= fun a => commit >>= fun _ => pure a) w with ⟨out, w₂⟩
  rw [withConn_apply hout] at h
  cases out with
  | ok b => cases h
  | error e =>
      cases h
      have hsame : w₂.conn.committed = w.conn.committed := by
        have hkeep := (hbody w trivial).2
        rcases bind_eq_error hout with hbad | ⟨b, w₁, hok, hrest⟩
        · rwa [hbad] at hkeep
        · rw [hok] at hkeep
          rcases bind_eq_error hrest with hbad | ⟨u, w₃, _, hpure⟩
          · exact (commit_of_error hbad).1.1.trans hkeep
          · cases hpure
      exact ⟨hsame, hsame⟩

theorem setTag_of_ok {fileId : ℕ} {now : ℤ} {kv : PyStr × PyStr} {u : Unit} (h : setTag fileId now kv w = (.ok u, w')) :
    w'.conn.working = tagSet fileId now w.conn.working kv := by
  have hr := (executeChecked_of_ok h).1
  rw [Db.upsertOverride] at hr
  split at hr
  · exact (Except.ok.inj hr).symm
  · cases hr

theorem unsetTag_of_ok {fileId : ℕ} {now : ℤ} {key : PyStr} {u : Unit}
    (h : unsetTag fileId now key w = (.ok u, w')) : w'.conn.working = tagUnset fileId now w.conn.working key := by
  obtain ⟨embedded, w₁, hq, hrest⟩ := bind_eq_ok h
  obtain ⟨rfl, hw, _, _⟩ := query_of_ok hq
  rw [tagUnset]
  split at hrest
  · rename_i hsome
    have hr := (executeChecked_of_ok hrest).1
    rw [hw, Db.upsertOverride] at hr
    rw [if_pos hsome]
    split at hr
    · exact (Except.ok.inj hr).symm
    · cases hr
  · rename_i hnone
    have hr := (statement_of_ok hrest).1
    rw [hw] at hr
    rw [if_neg hnone]
    exact (Prod.ext_iff.mp (Except.ok.inj hr)).2.symm

/-- A loop of such statements that returns did all of them. -/
theorem each_of_ok {β : Type} {f : β → Py Unit} {g : Db → β → Db}
    (hf : ∀ (w w' : World) (b : β) (u : Unit), f b w = (.ok u, w') → w'.conn.working = g w.conn.working b) :
    ∀ (bs : List β) (w w' : World) (u : Unit), each f bs w = (.ok u, w') →
      w'.conn.working = bs.foldl g w.conn.working := by
  intro bs
  induction bs with
  | nil =>
      intro w w' u h
      cases h
      rfl
  | cons b bs ih =>
      intro w w' u h
      rw [each_cons] at h
      obtain ⟨_, w₁, hb, hrest⟩ := bind_eq_ok h
      rw [ih w₁ w' u hrest, hf w w₁ b _ hb, List.foldl_cons]

/-- **An edit that returns is committed as a whole.** -/
theorem updateTags_of_ok {env : Env} {fileId : ℕ} {setKv : List (PyStr × PyStr)} {unsetKeys : List PyStr} {u : Unit}
    (h : updateTags env fileId setKv unsetKeys w = (.ok u, w')) :
    w'.conn.working = edited fileId (env.timeNs w.clock) setKv unsetKeys w.conn.working ∧
      w'.conn.committed = w'.conn.working := by
  rw [updateTags, bind_of_ok (nowNs_apply env w)] at h
  obtain ⟨w₁, hbody, hcommit⟩ := withConn_of_ok h
  obtain ⟨_, w₂, hset, hunset⟩ := bind_eq_ok hbody
  have h2 := each_of_ok (fun w w' kv _ h => setTag_of_ok h) setKv _ _ _ hset
  have h1 := each_of_ok (fun w w' key _ h => unsetTag_of_ok h) unsetKeys _ _ _ hunset
  obtain ⟨hc, hw, _⟩ := commit_of_ok hcommit
  refine ⟨?_, hc.trans hw.symm⟩
  rw [hw, h1, h2]
  rfl

/-- **An edit that raises leaves nothing.** -/
theorem updateTags_of_error {env : Env} {fileId : ℕ} {setKv : List (PyStr × PyStr)} {unsetKeys : List PyStr} {e : PyErr}
    (h : updateTags env fileId setKv unsetKeys w = (.error e, w')) : Untouched w.conn w'.conn := by
  rw [updateTags, bind_of_ok (nowNs_apply env w)] at h
  have hbody : KeepsCommitted (do
      each (setTag fileId (env.timeNs w.clock)) setKv
      each (unsetTag fileId (env.timeNs w.clock)) unsetKeys) :=
    KeepsCommitted.bind (keepsCommitted_each (keepsCommitted_setTag _ _) _) fun _ =>
      keepsCommitted_each (keepsCommitted_unsetTag _ _) _
  obtain ⟨hc, hw⟩ := withConn_of_error hbody h
  exact ⟨hc, Or.inr hw⟩

end McapCatalog.Builder
