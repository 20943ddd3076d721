import McapCatalog.Worker
import McapCatalog.Execution
import Mathlib.Logic.Relation

/-!
# The tag-edit endpoint

`tag_ipc.py`: clients post tag edits to handler threads, a handler puts its edit on the work queue and waits for the
worker's answer, with a timeout of its own.  Handlers, the worker, the producers and the clock take their steps in any
order, and the worker can stay in one item for any length of time.

* `checkRequest` — everything `do_POST` checks before it touches the queue, with its replies;
* `Phase`, `Handler` — where a handler thread stands; `Answer` — the exit of `do_POST` it took;
* `EditState`, `EditStep` — the whole endpoint and its steps.  `EditState.log` is a **history variable**: what was enqueued, run
  and answered, newest first.
-/

namespace McapCatalog.TagIpc

open McapCatalog.PyText McapCatalog.PyError McapCatalog.KeyParse McapCatalog.Storage McapCatalog.Tables
open McapCatalog.Connection McapCatalog.CatalogDb McapCatalog.Reconcile McapCatalog.Worker

/-! ### Requests -/

/-- A value of `json.loads`; of a number only its truth value is read. -/
inductive Json where
  | null
  | bool (b : Bool)
  | number (isZero : Bool)
  | string (s : PyStr)
  | array (items : List Json)
  | object (entries : List (PyStr × Json))

/-- `bool(value)`. -/
def Json.truthy : Json → Bool
  | .null => false
  | .bool b => b
  | .number isZero => !isZero
  | .string s => !s.isEmpty
  | .array items => !items.isEmpty
  | .object entries => !entries.isEmpty

/-- `body.get(name)`, with `None` for a missing entry. -/
def Json.entry (entries : List (PyStr × Json)) (name : PyStr) : Json :=
  ((entries.find? fun e => e.1 = name).map Prod.snd).getD .null

/-- The string a value is, if it is one. -/
def Json.asString : Json → Option PyStr
  | .string s => some s
  | _ => none

/-- A `Content-Length` header after `int()`. -/
inductive ContentLength where
  | missing
  | malformed
  | value (n : ℤ)

/-- A POST request: its path, its length, and what reading and parsing the body comes to (`none`: not JSON). -/
structure Request where
  path : PyStr
  contentLength : ContentLength
  body : Except PyErr (Option Json)

/-- How `do_POST` ends without an edit: a reply, or a dropped connection. -/
inductive Rejection where
  | reply (code : ℕ) (error : PyStr)
  | dropped
  deriving DecidableEq

/-- The edit a request asks for. -/
structure Edit where
  dims : Dims
  setTags : List (PyStr × PyStr)
  unsetKeys : List PyStr
  deriving DecidableEq

/-- `MAX_BODY_BYTES`. -/
def maxBodyBytes : ℤ := 1 * 1024 * 1024

/-- The bounds on `Content-Length`, checked before anything is read. -/
def checkLength : ContentLength → Except Rejection ℤ
  | .missing => .error (.reply 400 (py "missing Content-Length"))
  | .malformed => .error (.reply 400 (py "malformed Content-Length"))
  | .value length =>
    if length < 0 then .error (.reply 400 (py "negative Content-Length"))
    else if maxBodyBytes < length then .error (.reply 413 (py "body too large"))
    else .ok length

/-- The body as a dictionary; an empty body is not JSON. -/
def checkBody (request : Request) (length : ℤ) : Except Rejection (List (PyStr × Json)) :=
  match (if length = 0 then .ok none else request.body) with
  | .error _ => .error .dropped
  | .ok none => .error (.reply 400 (py "malformed JSON body"))
  | .ok (some (.object entries)) => .ok entries
  | .ok (some _) => .error (.reply 400 (py "body must be a JSON object"))

/-- The dimensions of `key`. -/
def checkKey (value : Json) : Except Rejection Dims :=
  match value with
  | .string key =>
    if key = [] then .error (.reply 400 (py "missing/invalid 'key'"))
    else
      match parseHiveKey key with
      | none => .error (.reply 400 (py "unparseable key"))
      | some dims =>
        if rebuildHiveKey dims ≠ lstrip key (cp '/') then .error (.reply 400 (py "unparseable key"))
        else .ok dims
  | _ => .error (.reply 400 (py "missing/invalid 'key'"))

/-- The entries of `set_tags`; `repr` is Python's. -/
def checkEntries (repr : PyStr → PyStr) : List (PyStr × Json) → Except Rejection (List (PyStr × PyStr))
  | [] => .ok []
  | (k, v) :: entries =>
    match v.asString with
    | none =>
      .error (.reply 400
        (py "'set_tags' entry " ++ repr k ++ py " must map a string key to a string value"))
    | some value => (checkEntries repr entries).map fun rest => (k, value) :: rest

/-- `body.get("set_tags") or {}`, validated. -/
def checkSetTags (repr : PyStr → PyStr) (value : Json) : Except Rejection (List (PyStr × PyStr)) :=
  if value.truthy then
    match value with
    | .object entries => checkEntries repr entries
    | _ => .error (.reply 400 (py "'set_tags' must be an object"))
  else .ok []

/-- `body.get("unset_keys") or []`, validated. -/
def checkUnsetKeys (value : Json) : Except Rejection (List PyStr) :=
  let refused : Except Rejection (List PyStr) := .error (.reply 400 (py "'unset_keys' must be a list of strings"))
  if value.truthy then
    match value with
    | .array items => if items.all fun v => v.asString.isSome then .ok (items.filterMap Json.asString) else refused
    | _ => refused
  else .ok []

/-- `do_POST` up to the semaphore. -/
def checkRequest (repr : PyStr → PyStr) (request : Request) : Except Rejection Edit := do
  if request.path ≠ py "/update_tags" then throw (.reply 404 (py "not found"))
  let length ← checkLength request.contentLength
  let body ← checkBody request length
  let dims ← checkKey (Json.entry body (py "key"))
  let setTags ← checkSetTags repr (Json.entry body (py "set_tags"))
  let unsetKeys ← checkUnsetKeys (Json.entry body (py "unset_keys"))
  pure ⟨dims, setTags, unsetKeys⟩

/-! ### Handlers -/

/-- The exits of `do_POST`. -/
inductive Answer where
  /-- 404 for a wrong path, 400, 413, or a dropped connection. -/
  | rejected (why : Rejection)
  /-- 503, no permit was free. -/
  | busy
  /-- 503, the wait for the worker timed out. -/
  | timedOut
  /-- 200, 404, 503 or 500, after the status of the worker's result. -/
  | served (result : TagEditResult)

/-- The status code of an answer. -/
def Answer.code : Answer → Option ℕ
  | .rejected (.reply code _) => some code
  | .rejected .dropped => none
  | .busy => some 503
  | .timedOut => some 503
  | .served result =>
    match result.status with
    | .ok => some 200
    | .notFound => some 404
    | .expired => some 503
    | .error => some 500

/-- Where a handler thread stands. -/
inductive Phase where
  /-- The request is not checked yet. -/
  | reading
  /-- It holds a permit, its item is not on the queue yet. -/
  | admitted (edit : Edit)
  /-- Its item is on the queue, and it waits since the given reading of the clock. -/
  | waiting (item : TagEditItem) (since : ℕ)
  /-- It has answered and still holds its permit. -/
  | answered (answer : Answer)
  /-- It is done. -/
  | finished (answer : Answer)

/-- A handler thread, with the event and the result of its item. -/
structure Handler where
  request : Request
  phase : Phase
  event : Option TagEditResult

/-- The answer a handler has given. -/
def Handler.answer (h : Handler) : Option Answer :=
  match h.phase with
  | .answered answer => some answer
  | .finished answer => some answer
  | _ => none

/-! ### The endpoint -/

/-- An item on the work queue: an event of a producer, or the edit of a handler. -/
inductive Queued where
  | event (item : WorkItem)
  | edit (id : ℕ) (item : TagEditItem)

/-- Whose edit it is. -/
def Queued.editId : Queued → Option ℕ
  | .event _ => none
  | .edit id _ => some id

/-- Where the worker stands: it has an item in hand, or has run an edit and not yet set its event. -/
inductive WorkerPhase where
  | idle
  | holding (queued : Queued)
  | ran (id : ℕ) (result : TagEditResult)
  | stopped

/-- The edit in the worker's hands. -/
def WorkerPhase.editId : WorkerPhase → Option ℕ
  | .holding queued => queued.editId
  | .ran id _ => some id
  | _ => none

/-- One run of `handle_tag_edit`: the reading its deadline was tested against, the connection before and after it. -/
structure EditRun where
  item : TagEditItem
  checkedAt : ℤ
  before : Conn
  after : Conn
  result : TagEditResult

/-- What the history of the endpoint records. -/
inductive Event where
  | enqueued (id : ℕ) (item : TagEditItem)
  | ran (id : ℕ) (run : EditRun)
  | answered (id : ℕ) (answer : Answer)

/-- `TagEditServer`'s parameters, and Python's `repr`. -/
structure Config where
  deadlineSeconds : ℤ
  maxPending : ℕ
  repr : PyStr → PyStr

/-- `wait_timeout`. -/
def Config.waitTimeout (cfg : Config) : ℤ := max cfg.deadlineSeconds 0 + 2

/-- The endpoint with its queue, the worker and the writer's world. -/
structure EditState where
  world : World
  queue : List Queued
  worker : WorkerPhase
  permits : ℕ
  handlers : ℕ → Option Handler
  log : List Event

namespace EditState

/-- A fresh endpoint on a writer's world. -/
def initial (cfg : Config) (world : World) : EditState where
  world := world
  queue := []
  worker := .idle
  permits := cfg.maxPending
  handlers := fun _ => none
  log := []

/-- One handler replaced. -/
def setHandler (s : EditState) (id : ℕ) (h : Handler) : EditState :=
  { s with handlers := Function.update s.handlers id (some h) }

/-- A handler takes a permit, of which `n` are left. -/
def admits (s : EditState) (id : ℕ) (h : Handler) (edit : Edit) (n : ℕ) : EditState :=
  { s.setHandler id { h with phase := .admitted edit } with permits := n }

/-- A handler puts its item on the queue and starts to wait; it has read the clock. -/
def enqueues (s : EditState) (id : ℕ) (h : Handler) (item : TagEditItem) : EditState :=
  { s.setHandler id { h with phase := .waiting item s.world.clock } with
    queue := s.queue ++ [.edit id item]
    world := s.world.tickClock
    log := .enqueued id item :: s.log }

/-- A handler answers, still holding its permit. -/
def answers (s : EditState) (id : ℕ) (h : Handler) (answer : Answer) : EditState :=
  { s.setHandler id { h with phase := .answered answer } with log := .answered id answer :: s.log }

/-- A handler answers without ever having held a permit. -/
def refuses (s : EditState) (id : ℕ) (h : Handler) (answer : Answer) : EditState :=
  { s.setHandler id { h with phase := .finished answer } with log := .answered id answer :: s.log }

/-- A handler that has answered gives its permit back. -/
def releases (s : EditState) (id : ℕ) (h : Handler) (answer : Answer) : EditState :=
  { s.setHandler id { h with phase := .finished answer } with permits := s.permits + 1 }

/-- An event joins the queue. -/
def posts (s : EditState) (item : WorkItem) : EditState := { s with queue := s.queue ++ [.event item] }

/-- The worker takes the first item of the queue. -/
def takes (s : EditState) (queued : Queued) (rest : List Queued) : EditState :=
  { s with queue := rest, worker := .holding queued }

/-- The worker is done with an event that left this world. -/
def finishes (s : EditState) (w : World) : EditState := { s with world := w, worker := .idle }

/-- The worker has run an edit. -/
def runs (s : EditState) (id : ℕ) (run : EditRun) (w : World) : EditState :=
  { s with world := w, worker := .ran id run.result, log := .ran id run :: s.log }

/-- The worker sets the event of the edit it has run. -/
def replies (s : EditState) (id : ℕ) (h : Handler) (result : TagEditResult) : EditState :=
  { s.setHandler id { h with event := some result } with worker := .idle }

end EditState

/-- The item of an edit, with its deadline. -/
def Edit.item (edit : Edit) (deadline : ℤ) : TagEditItem := ⟨edit.dims, edit.setTags, edit.unsetKeys, deadline⟩

/-- The read of `tags_effective` after a committed edit does not raise. -/
def ReadsBack (env : Env) (item : TagEditItem) (w : World) : Prop :=
  ∀ t w₁ fileId w₂ w₃, tick w = (.ok t, w₁) → lookupFileId item.dims w₁ = (.ok (some fileId), w₂) →
    updateTags env fileId item.setTags item.unsetKeys w₂ = (.ok (), w₃) → w₃.conn.next.1 = none

/-- One step of a handler, the worker, a producer or the clock. -/
inductive EditStep (env : Env) (cfg : Config) : EditState → EditState → Prop where
  /-- A client connects and posts a request. -/
  | connect (s : EditState) (id : ℕ) (request : Request) (hid : s.handlers id = none) :
      EditStep env cfg s (s.setHandler id ⟨request, .reading, none⟩)
  /-- The request does not pass the checks. -/
  | reject (s : EditState) (id : ℕ) {h : Handler} {why : Rejection} (hid : s.handlers id = some h)
      (hp : h.phase = .reading) (hc : checkRequest cfg.repr h.request = .error why) :
      EditStep env cfg s (s.refuses id h (.rejected why))
  /-- No permit is free. -/
  | busy (s : EditState) (id : ℕ) {h : Handler} {edit : Edit} (hid : s.handlers id = some h) (hp : h.phase = .reading)
      (hc : checkRequest cfg.repr h.request = .ok edit) (hs : s.permits = 0) : EditStep env cfg s (s.refuses id h .busy)
  /-- `pending_sem.acquire(blocking=False)` succeeds. -/
  | acquire (s : EditState) (id : ℕ) {h : Handler} {edit : Edit} {n : ℕ} (hid : s.handlers id = some h)
      (hp : h.phase = .reading) (hc : checkRequest cfg.repr h.request = .ok edit) (hs : s.permits = n + 1) :
      EditStep env cfg s (s.admits id h edit n)
  /-- `work_q.put(item)`, and the wait begins. -/
  | enqueue (s : EditState) (id : ℕ) {h : Handler} {edit : Edit} (hid : s.handlers id = some h)
      (hp : h.phase = .admitted edit) :
      EditStep env cfg s (s.enqueues id h (edit.item (env.monotonic s.world.clock + cfg.deadlineSeconds)))
  /-- `item.event.wait(...)` returns true. -/
  | wake (s : EditState) (id : ℕ) {h : Handler} {item : TagEditItem} {since : ℕ} {result : TagEditResult}
      (hid : s.handlers id = some h) (hp : h.phase = .waiting item since) (he : h.event = some result) :
      EditStep env cfg s (s.answers id h (.served result))
  /-- `item.event.wait(...)` times out. -/
  | giveUp (s : EditState) (id : ℕ) {h : Handler} {item : TagEditItem} {since : ℕ} (hid : s.handlers id = some h)
      (hp : h.phase = .waiting item since) (he : h.event = none)
      (ht : env.monotonic since + cfg.waitTimeout ≤ env.monotonic s.world.clock) :
      EditStep env cfg s (s.answers id h .timedOut)
  /-- `pending_sem.release()`. -/
  | release (s : EditState) (id : ℕ) {h : Handler} {answer : Answer} (hid : s.handlers id = some h)
      (hp : h.phase = .answered answer) : EditStep env cfg s (s.releases id h answer)
  /-- A producer, the rescan thread or a signal puts an event on the queue. -/
  | post (s : EditState) (item : WorkItem) (hi : ∀ edit, item ≠ .tagEdit edit) : EditStep env cfg s (s.posts item)
  /-- `work_q.get()`. -/
  | take (s : EditState) {queued : Queued} {rest : List Queued} (hw : s.worker = .idle) (hq : s.queue = queued :: rest) :
      EditStep env cfg s (s.takes queued rest)
  /-- The loop ends at a `stop` event. -/
  | stop (s : EditState) (hw : s.worker = .holding (.event .stop)) : EditStep env cfg s { s with worker := .stopped }
  /-- The worker is done with an event. -/
  | runEvent (s : EditState) {item : WorkItem} (source : Source) (workers : Workers)
      (hw : s.worker = .holding (.event item)) (hi : item ≠ .stop) :
      EditStep env cfg s (s.finishes (workItem env source workers item s.world).2)
  /-- `handle_tag_edit` up to `item.event.set()`. -/
  | runEdit (s : EditState) {id : ℕ} {item : TagEditItem} (source : Source) (workers : Workers) {result : TagEditResult}
      {w' : World} (hw : s.worker = .holding (.edit id item)) (hread : ReadsBack env item s.world)
      (hrun : workItem env source workers (.tagEdit item) s.world = (.ok (some result), w')) :
      EditStep env cfg s (s.runs id ⟨item, env.monotonic s.world.clock, s.world.conn, w'.conn, result⟩ w')
  /-- `item.event.set()`. -/
  | setEvent (s : EditState) {id : ℕ} {result : TagEditResult} {h : Handler} (hw : s.worker = .ran id result)
      (hid : s.handlers id = some h) : EditStep env cfg s (s.replies id h result)
  /-- Time passes. -/
  | advance (s : EditState) (n : ℕ) : EditStep env cfg s { s with world := { s.world with clock := s.world.clock + n } }

/-- A run of the endpoint. -/
def Steps (env : Env) (cfg : Config) : EditState → EditState → Prop := Relation.ReflTransGen (EditStep env cfg)

end McapCatalog.TagIpc
