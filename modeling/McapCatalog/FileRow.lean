import McapCatalog.FileTransaction

/-!
# Writing or quarantining one file

The two ways `_write_file_row` ends, and the smaller commits around it, as functions of the database.

* `failureRecorded_apply` — `record_failure` and its commit;
* `quarantined`, `quarantineExisting_ok`, `quarantineExisting_error` — the row goes, the failure is recorded;
* `errorText_transactionError` — what the transaction raises can be recorded;
* `writeFileRow_cataloged`, `writeFileRow_failed`, `writeFileRow_raises` — **the three exits** of
  `_write_file_row`.
-/

namespace McapCatalog.Builder

open McapCatalog.PyText McapCatalog.PyError McapCatalog.KeyParse McapCatalog.McapSummary
open McapCatalog.Storage McapCatalog.Tables McapCatalog.RowidTable
open McapCatalog.KeyedRows McapCatalog.Connection McapCatalog.CatalogDb
open McapCatalog.SurvivingState McapCatalog.SurvivingState.Comp

variable {env : Env} {w : World}

/-! ### Recording a failure -/

/-- The parameters of the failure upsert that can fail to bind. -/
def failureError (key text : PyStr) : Option PyErr := bindError [.text key, .text text]

theorem bindError_failure (env : Env) (key text : PyStr) (t : ℕ) :
    bindError [.text key, .int (env.timeNs t), .text text] = failureError key text := by
  simp only [failureError, bindError_cons, bindError_timeNs env t, Option.none_or]

theorem recordFailure_ok (hq : w.Quiet) {key text : PyStr} (hb : failureError key text = none) :
    recordFailure env key text w =
      (.ok (), w.tickClock.setWorking
        (Db.upsertFailure key (env.timeNs w.clock) text w.conn.working)) := by
  rw [recordFailure, bind_of_ok (nowNs_apply env w)]
  exact execute_ok hq.tickClock (by rw [bindError_failure, hb]) _

theorem recordFailure_error (hq : w.Quiet) {key text : PyStr} {e : PyErr}
    (hb : failureError key text = some e) :
    recordFailure env key text w = (.error e, w.tickClock) := by
  rw [recordFailure, bind_of_ok (nowNs_apply env w)]
  exact execute_unbound hq.tickClock (by rw [bindError_failure, hb]) _

/-! ### Quarantine -/

/-- The database after a quarantine. -/
def quarantined (key : FileKey) (effKey : PyStr) (now : ℤ) (text : PyStr) (db : Db) : Db :=
  Db.upsertFailure effKey now text (db.deleteFiles fun r => r.key = key)

theorem quarantineExisting_ok (hq : w.Quiet) (ids : Ids) {dims : Dims} {effKey text : PyStr}
    (hc : bindError (compositeParams dims) = none) (hf : failureError effKey text = none) :
    quarantineExisting env ids dims effKey text w =
      (.ok (), (w.tickClock.setWorking
        (quarantined (ids.key dims) effKey (env.timeNs w.clock) text w.conn.working)).commitWorking) := by
  rw [quarantineExisting, bind_of_ok (execute_ok hq hc _), bind_of_ok (recordFailure_ok (hq.setWorking _) hf)]
  exact commit_quiet ((hq.setWorking _).tickClock.setWorking _)

/-- A quarantine that raises commits nothing; the row may be gone from the connection's view. -/
theorem quarantineExisting_error (env : Env) (hq : w.Quiet) (ids : Ids) {dims : Dims} {effKey text : PyStr} {e : PyErr}
    (he : (bindError (compositeParams dims)).or (failureError effKey text) = some e) :
    ∃ w', quarantineExisting env ids dims effKey text w = (.error e, w') ∧ w'.Quiet ∧
      w'.conn.committed = w.conn.committed ∧ w'.caches = w.caches ∧
      (w'.conn.working = w.conn.working ∨
        w'.conn.working = w.conn.working.deleteFiles fun r => r.key = ids.key dims) := by
  rcases hc : bindError (compositeParams dims) with _ | e'
  · rw [hc, Option.none_or] at he
    refine ⟨(w.setWorking (w.conn.working.deleteFiles fun r => r.key = ids.key dims)).tickClock, ?_, hq, rfl, rfl,
      Or.inr rfl⟩
    rw [quarantineExisting, bind_of_ok (execute_ok hq hc _)]
    exact bind_of_error (recordFailure_error (hq.setWorking _) he)
  · rw [hc, Option.some_or] at he
    cases he
    exact ⟨w, by rw [quarantineExisting]; exact bind_of_error (execute_unbound hq hc _), hq, rfl, rfl,
      Or.inl rfl⟩

/-! ### What the transaction raises -/

theorem or_eq_some {α : Type} {a b : Option α} {x : α} (h : a.or b = some x) : a = some x ∨ b = some x := by
  cases a with
  | none => exact Or.inr h
  | some y => exact Or.inl h

theorem encodable_countMismatch (a b : ℕ) : encodable (countMismatch a b) = true := by
  have h1 : encodable (py "count mismatch: sum(counts)=") = true := by decide
  have h2 : encodable (py " != message_count=") = true := by decide
  simp only [countMismatch, encodable_append, h1, h2, encodable_decimal, Bool.and_self]

/-- **What the transaction raises can be recorded.** -/
theorem errorText_transactionError {present : Bool} {written : Written} {e : PyErr}
    (h : transactionError present written = some e) : encodable e.errorText = true := by
  rcases or_eq_some h with h | h
  · rcases or_eq_some h with h | h
    · rcases or_eq_some h with h | h
      · rcases or_eq_some h with h | h
        · obtain ⟨ch, _, hch⟩ := List.exists_of_findSome?_eq_some h
          exact encodable_errorText_of_bindError hch
        · rw [countError] at h
          split at h
          · cases h
            have hname : encodable (py "ValueError") = true := by decide
            have hsep : encodable (py ": ") = true := by decide
            rw [PyErr.errorText, encodable_append, encodable_append, PyErr.typeName, PyErr.str, hname, hsep,
              encodable_countMismatch]
            rfl
          · cases h
      · exact encodable_errorText_of_bindError h
    · split at h
      · cases h
      · cases h
        decide
  · exact encodable_errorText_of_bindError h

/-! ### The exits of the per-file transaction -/

/-- The topic caches of a world are exact. -/
def TopicsExact (w : World) : Prop := onTopics w w.conn.working = w

section Exits

variable {ids : Ids} {written : Written}

theorem writeFileRow_cataloged (hinj : FingerprintInjective env) (hq : w.Quiet) (hx : TopicsExact w)
    (hinv : TopicsInv env w.conn.working)
    (he : transactionError (idsPresent w.conn.working ids) written = none) :
    ∃ db', writeFileRow env ids written w =
        (.ok ⟨.cataloged, []⟩, (onTopics w.tickClock db').commitWorking) ∧
      Wrote env (ids.key written.dims) written w.conn.working db' := by
  have htx := fileTransaction_onTopics hinj hq ids written hinv
  rw [he, hx] at htx
  obtain ⟨db', hrun, hwrote⟩ := htx
  have hcommit := withConn_ok hrun (onTopics_quiet hq.tickClock db')
  have hatt : attempt (withConn (fileTransaction env ids written)) w =
      (.ok (.ok ()), (onTopics w.tickClock db').commitWorking) := by
    rw [attempt_apply, hcommit]
  refine ⟨db', ?_, hwrote⟩
  rw [writeFileRow, bind_of_ok hatt]
  rfl

/-- After a rolled-back transaction: the world the recovery starts from. -/
theorem writeFileRow_rolledBack (hinj : FingerprintInjective env) (hq : w.Quiet) (hx : TopicsExact w)
    (hsync : w.conn.working = w.conn.committed) (hinv : TopicsInv env w.conn.working) {e : PyErr}
    (he : transactionError (idsPresent w.conn.working ids) written = some e) :
    ∃ t, writeFileRow env ids written w =
      (quarantineExisting env ids written.dims written.effKey e.errorText >>= fun _ =>
        pure ⟨.failed, e.str⟩ : Py CatalogResult) ⟨w.conn, Caches.of w.conn.working, t⟩ := by
  have htx := fileTransaction_onTopics hinj hq ids written hinv
  rw [he, hx] at htx
  obtain ⟨w', hrun, hq', hcommitted⟩ := htx
  have hback := withConn_error hrun
  have hatt : attempt (withConn (fileTransaction env ids written)) w =
      (.ok (.error e), w'.rollBackWorking) := by
    rw [attempt_apply, hback]
  have hconn : w'.rollBackWorking.conn = w.conn := by
    rw [World.rollBackWorking_conn, hcommitted]
    have hfaults : w'.conn.faults = w.conn.faults := hq'.trans hq.symm
    rw [hfaults]
    cases hc : w.conn
    rw [hc] at hsync
    simp only at hsync
    rw [hsync]
  refine ⟨w'.clock, ?_⟩
  rw [writeFileRow, bind_of_ok hatt]
  show (loadCaches >>= _) _ = _
  rw [bind_of_ok (loadCaches_quiet hq'.rollBackWorking), bind_of_ok (change_apply _ _), hconn]
  have hworld : w'.rollBackWorking.setCaches (Caches.of w.conn.working) =
      ⟨w.conn, Caches.of w.conn.working, w'.clock⟩ := by
    rw [← hconn]
    rfl
  rw [hworld]

/-- **The transaction failed** and the file was quarantined. -/
theorem writeFileRow_failed (hinj : FingerprintInjective env) (hq : w.Quiet) (hx : TopicsExact w)
    (hsync : w.conn.working = w.conn.committed) (hinv : TopicsInv env w.conn.working) {e : PyErr}
    (he : transactionError (idsPresent w.conn.working ids) written = some e)
    (hc : bindError (compositeParams written.dims) = none)
    (hf : failureError written.effKey e.errorText = none) :
    ∃ now t, writeFileRow env ids written w =
      (.ok ⟨.failed, e.str⟩,
        ⟨⟨quarantined (ids.key written.dims) written.effKey now e.errorText w.conn.working,
          quarantined (ids.key written.dims) written.effKey now e.errorText w.conn.working, []⟩,
          Caches.of w.conn.working, t⟩) := by
  obtain ⟨t, hrun⟩ := writeFileRow_rolledBack hinj hq hx hsync hinv he
  have hq1 : World.Quiet ⟨w.conn, Caches.of w.conn.working, t⟩ := hq
  refine ⟨env.timeNs t, t + 1, ?_⟩
  rw [hrun, bind_of_ok (quarantineExisting_ok hq1 ids hc hf)]
  have hfaults : w.conn.faults = [] := hq
  show (_, _) = _
  rw [World.commitWorking, World.setWorking, World.tickClock]
  simp only [hfaults]

/-- **The quarantine raised** as well. -/
theorem writeFileRow_raises (hinj : FingerprintInjective env) (hq : w.Quiet) (hx : TopicsExact w)
    (hsync : w.conn.working = w.conn.committed) (hinv : TopicsInv env w.conn.working) {e e' : PyErr}
    (he : transactionError (idsPresent w.conn.working ids) written = some e)
    (he' : (bindError (compositeParams written.dims)).or (failureError written.effKey e.errorText) = some e') :
    ∃ w', writeFileRow env ids written w = (.error e', w') ∧ w'.Quiet ∧
      w'.conn.committed = w.conn.committed ∧ w'.caches = Caches.of w.conn.working ∧
      (w'.conn.working = w.conn.working ∨
        w'.conn.working = w.conn.working.deleteFiles fun r => r.key = ids.key written.dims) := by
  obtain ⟨t, hrun⟩ := writeFileRow_rolledBack hinj hq hx hsync hinv he
  have hq1 : World.Quiet ⟨w.conn, Caches.of w.conn.working, t⟩ := hq
  obtain ⟨w', hrun', hq', hcommitted, hcaches, hworking⟩ := quarantineExisting_error env hq1 ids he'
  exact ⟨w', by rw [hrun, bind_of_error hrun'], hq', hcommitted, hcaches, hworking⟩

end Exits

end McapCatalog.Builder
