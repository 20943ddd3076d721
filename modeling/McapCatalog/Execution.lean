import McapCatalog.Builder

/-!
# Calls on a connection that works

The laws of the connection's calls when no statement is scripted to fail (`World.Quiet`): each call is then a
plain function of the world, and the lemmas here say which.

* `statement_quiet`, `execute_quiet`, `query_quiet`, ... — one law per call;
* `withConn_ok`, `withConn_error` — a transaction commits the view of its body, or drops it;
* `bindError_append` and its neighbours — when a parameter list binds;
* `loadTable_eq_idOf` — a freshly loaded dictionary is the index of its table.
-/

namespace McapCatalog.Connection

open McapCatalog.PyText McapCatalog.PyError McapCatalog.Tables McapCatalog.RowidTable
open McapCatalog.SurvivingState McapCatalog.SurvivingState.Comp

/-- No statement of this connection is scripted to fail. -/
def World.Quiet (w : World) : Prop := w.conn.faults = []

variable {α : Type} {w : World}

/-- The committed database replaced by the connection's view. -/
def World.commitWorking (w : World) : World := { w with conn := { w.conn with committed := w.conn.working } }

/-- The connection's view replaced by the committed database. -/
def World.rollBackWorking (w : World) : World := { w with conn := { w.conn with working := w.conn.committed } }

/-- One more reading of a clock or of the source. -/
def World.tickClock (w : World) : World := { w with clock := w.clock + 1 }

@[simp] theorem World.setWorking_conn (w : World) (db : Db) :
    (w.setWorking db).conn = { w.conn with working := db } := rfl

@[simp] theorem World.setWorking_caches (w : World) (db : Db) : (w.setWorking db).caches = w.caches := rfl

@[simp] theorem World.setWorking_clock (w : World) (db : Db) : (w.setWorking db).clock = w.clock := rfl

@[simp] theorem World.setCaches_conn (w : World) (c : Caches) : (w.setCaches c).conn = w.conn := rfl

@[simp] theorem World.setCaches_caches (w : World) (c : Caches) : (w.setCaches c).caches = c := rfl

@[simp] theorem World.tickClock_conn (w : World) : w.tickClock.conn = w.conn := rfl

@[simp] theorem World.tickClock_caches (w : World) : w.tickClock.caches = w.caches := rfl

@[simp] theorem World.commitWorking_conn (w : World) :
    w.commitWorking.conn = ⟨w.conn.working, w.conn.working, w.conn.faults⟩ := rfl

@[simp] theorem World.commitWorking_caches (w : World) : w.commitWorking.caches = w.caches := rfl

@[simp] theorem World.rollBackWorking_conn (w : World) :
    w.rollBackWorking.conn = ⟨w.conn.committed, w.conn.committed, w.conn.faults⟩ := rfl

@[simp] theorem World.rollBackWorking_caches (w : World) : w.rollBackWorking.caches = w.caches := rfl

theorem World.Quiet.setWorking (h : w.Quiet) (db : Db) : (w.setWorking db).Quiet := h

theorem World.Quiet.setCaches (h : w.Quiet) (c : Caches) : (w.setCaches c).Quiet := h

theorem World.Quiet.tickClock (h : w.Quiet) : w.tickClock.Quiet := h

theorem World.Quiet.commitWorking (h : w.Quiet) : w.commitWorking.Quiet := h

theorem World.Quiet.rollBackWorking (h : w.Quiet) : w.rollBackWorking.Quiet := h

theorem next_quiet (h : w.Quiet) : w.conn.next = (none, w.conn) := by
  rw [Conn.next, h]

theorem tick_apply (w : World) : tick w = (.ok w.clock, w.tickClock) := rfl

theorem nowNs_apply (env : Env) (w : World) : nowNs env w = (.ok (env.timeNs w.clock), w.tickClock) := rfl

/-- **A statement**: it binds, then runs on the connection's view. -/
theorem statement_quiet (h : w.Quiet) (params : List Param) (run : Db → Except PyErr (α × Db)) :
    statement params run w =
      match bindError params with
      | some e => (.error e, w)
      | none =>
        match run w.conn.working with
        | .error e => (.error e, w)
        | .ok (a, db) => (.ok a, w.setWorking db) := by
  rw [statement, next_quiet h]
  rfl

theorem statement_unbound (h : w.Quiet) {params : List Param} {e : PyErr} (hb : bindError params = some e)
    (run : Db → Except PyErr (α × Db)) : statement params run w = (.error e, w) := by
  rw [statement_quiet h, hb]

theorem executeChecked_ok (h : w.Quiet) {params : List Param} (hb : bindError params = none)
    {run : Db → Except PyErr Db} {db : Db} (hr : run w.conn.working = .ok db) :
    executeChecked params run w = (.ok (), w.setWorking db) := by
  rw [executeChecked, statement_quiet h, hb, hr]
  rfl

theorem executeChecked_error (h : w.Quiet) {params : List Param} (hb : bindError params = none)
    {run : Db → Except PyErr Db} {e : PyErr} (hr : run w.conn.working = .error e) :
    executeChecked params run w = (.error e, w) := by
  rw [executeChecked, statement_quiet h, hb, hr]
  rfl

theorem executeChecked_unbound (h : w.Quiet) {params : List Param} {e : PyErr}
    (hb : bindError params = some e) (run : Db → Except PyErr Db) :
    executeChecked params run w = (.error e, w) :=
  statement_unbound h hb _

theorem execute_ok (h : w.Quiet) {params : List Param} (hb : bindError params = none) (run : Db → Db) :
    execute params run w = (.ok (), w.setWorking (run w.conn.working)) := by
  rw [execute, statement_quiet h, hb]

theorem execute_unbound (h : w.Quiet) {params : List Param} {e : PyErr} (hb : bindError params = some e)
    (run : Db → Db) : execute params run w = (.error e, w) :=
  statement_unbound h hb _

theorem query_ok (h : w.Quiet) {params : List Param} (hb : bindError params = none) (read : Db → α) :
    query params read w = (.ok (read w.conn.working), w) := by
  rw [query, statement_quiet h, hb]
  rfl

theorem query_unbound (h : w.Quiet) {params : List Param} {e : PyErr} (hb : bindError params = some e)
    (read : Db → α) : query params read w = (.error e, w) :=
  statement_unbound h hb _

theorem queryId_ok (h : w.Quiet) {params : List Param} (hb : bindError params = none)
    {read : Db → Option ℕ} {i : ℕ} (hr : read w.conn.working = some i) :
    queryId params read w = (.ok i, w) := by
  rw [queryId, bind_of_ok (query_ok h hb read), hr]
  rfl

theorem commit_quiet (h : w.Quiet) : commit w = (.ok (), w.commitWorking) := by
  rw [commit, next_quiet h]
  rfl

/-- **A transaction whose body returns** commits the body's view. -/
theorem withConn_ok {body : Py α} {a : α} {w' : World} (hb : body w = (.ok a, w')) (h : w'.Quiet) :
    withConn body w = (.ok a, w'.commitWorking) := by
  have hbody : (body >>= fun a => commit >>= fun _ => pure a) w = (.ok a, w'.commitWorking) := by
    rw [bind_of_ok hb, bind_of_ok (commit_quiet h)]
    rfl
  have hatt : attempt (body >>= fun a => commit >>= fun _ => pure a) w = (.ok (.ok a), w'.commitWorking) := by
    rw [attempt_apply, hbody]
  rw [withConn, bind_of_ok hatt]
  rfl

/-- **A transaction whose body raises** drops everything the body did to the database. -/
theorem withConn_error {body : Py α} {e : PyErr} {w' : World} (hb : body w = (.error e, w')) :
    withConn body w = (.error e, w'.rollBackWorking) := by
  have hatt : attempt (body >>= fun a => commit >>= fun _ => pure a) w = (.ok (.error e), w') := by
    rw [attempt_apply, bind_of_error hb]
  rw [withConn, bind_of_ok hatt]
  rfl

/-! ### When parameters bind -/

@[simp] theorem bindError_nil : bindError [] = none := rfl

theorem bindError_cons (p : Param) (ps : List Param) :
    bindError (p :: ps) = (p.bindError).or (bindError ps) := by
  rw [bindError, List.findSome?_cons]
  cases p.bindError <;> rfl

theorem bindError_text {s : PyStr} (h : encodable s = true) : (Param.text s).bindError = none := by
  rw [Param.bindError, if_pos h]

theorem bindError_text_eq_none_iff {s : PyStr} : (Param.text s).bindError = none ↔ encodable s = true := by
  unfold Param.bindError
  split <;> simp_all

theorem bindError_int_eq_none_iff {n : ℤ} :
    (Param.int n).bindError = none ↔ -(2 ^ 63) ≤ n ∧ n < 2 ^ 63 := by
  unfold Param.bindError
  split <;> simp_all

theorem bindError_cons_eq_none_iff {p : Param} {ps : List Param} :
    bindError (p :: ps) = none ↔ p.bindError = none ∧ bindError ps = none := by
  rw [bindError_cons, Option.or_eq_none_iff]

/-- The wall clock's readings bind. -/
theorem bindError_timeNs (env : Env) (t : ℕ) : (Param.int (env.timeNs t)).bindError = none :=
  bindError_int_eq_none_iff.mpr ⟨by have := env.timeNs_pos t; omega, env.timeNs_lt t⟩

/-- The text of a failed binding can be stored. -/
theorem encodable_errorText_of_bindError {params : List Param} {e : PyErr} (h : bindError params = some e) :
    encodable e.errorText = true := by
  have hsep : encodable (py ": ") = true := by decide
  obtain ⟨p, _, hp⟩ := List.exists_of_findSome?_eq_some h
  cases p with
  | text s =>
      rw [Param.bindError] at hp
      split at hp
      · cases hp
      · cases hp
        have hname : encodable (PyErr.unicodeEncodeError s).typeName = true := by
          show encodable (py "UnicodeEncodeError") = true
          decide
        rw [PyErr.errorText, encodable_append, encodable_append, hname, hsep]
        exact encodable_encodeMessage s
  | int n =>
      rw [Param.bindError] at hp
      split at hp
      · cases hp
      · cases hp
        decide

end McapCatalog.Connection

namespace McapCatalog.CatalogDb

open McapCatalog.PyText McapCatalog.PyError McapCatalog.Tables McapCatalog.RowidTable
open McapCatalog.Connection McapCatalog.SurvivingState McapCatalog.SurvivingState.Comp

/-! ### Loading the caches -/

/-- **A loaded dictionary is the index of its table.** -/
theorem loadTable_eq_idOf {κ : Type} [DecidableEq κ] (t : Table κ Unit) : loadTable t = t.idOf := by
  have hfold : ∀ (rows : List (Row κ Unit)) (cache : κ → Option ℕ),
      rows.Pairwise (fun a b => a.key ≠ b.key) →
      rows.foldl (fun (cache : κ → Option ℕ) r => Function.update cache r.key (some r.id)) cache =
        fun k => ((rows.find? fun r => r.key = k).map Row.id).or (cache k) := by
    intro rows
    induction rows with
    | nil => intro cache _; rfl
    | cons r rows ih =>
        intro cache hp
        rw [List.pairwise_cons] at hp
        rw [List.foldl_cons, ih _ hp.2]
        funext k
        by_cases hk : r.key = k
        · subst hk
          have hnone : rows.find? (fun r' => r'.key = r.key) = none := by
            rw [List.find?_eq_none]
            intro r' hr'
            simpa using (hp.1 r' hr').symm
          rw [hnone, List.find?_cons_of_pos (by simp), Function.update_self]
          rfl
        · rw [List.find?_cons_of_neg (by simpa using hk), Function.update_of_ne (Ne.symm hk)]
  rw [loadTable, hfold _ _ t.uniqueKey]
  funext k
  rw [Table.idOf, Table.find, Option.or_none]

/-- The caches a connection to `db` loads. -/
def Caches.of (db : Db) : Caches where
  customer := db.customers.idOf
  site := db.sites.idOf
  robot := db.robots.idOf
  source := db.sources.idOf
  topic := db.topicNames.idOf
  schema := db.schemas.idOf
  topicSet := db.topicSets.idOf

theorem loadCaches_quiet {w : World} (h : w.Quiet) :
    loadCaches w = (.ok (Caches.of w.conn.working), w) := by
  simp only [loadCaches, bind_of_ok (query_ok h bindError_nil _), loadTable_eq_idOf]
  rfl

end McapCatalog.CatalogDb
