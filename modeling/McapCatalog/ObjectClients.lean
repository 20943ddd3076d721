import McapCatalog.Backends
import McapCatalog.Retry

/-!
# The object stores through their clients

`S3Source` and `GCSSource` see a bucket only through a client, and every request of it can raise.  A HEAD is tried again by
`retry_with`, and so is a listing of GCS, but not one of S3.

* `Raised`, `s3IsPermanent`, `gcsIsPermanent` — what the sources read of an exception;
* `request`, `retried`, `turn` — a request at a moment, `retry_with` around it, and the moments of its attempts;
* `retried_exact` — **the first attempt that is not transient is the last, or the sixth**;
* `S3Client`, `S3Client.source`, `GcsClient`, `GcsClient.source` — the two sources, over what their client answers;
* `Truthful` — the client answers what the bucket holds at that moment, or raises; `Lists` — what a listing says;
* `s3_answers`, `gcs_answers` — **what they answer is what the bucket holds at the moment of the last attempt**.
-/

namespace McapCatalog.ObjectClients

open McapCatalog.PyText McapCatalog.PyError McapCatalog.McapSummary McapCatalog.KeyedRows McapCatalog.Storage McapCatalog.Retry
open McapCatalog.SurvivingState McapCatalog.SurvivingState.Comp

/-! ### Exceptions of a client -/

/-- The attribute `response` of an exception: none, something else, or a dictionary with what is under `"Error"`. -/
inductive Response where
  | absent
  | notADict
  | dict (error : Option (Option PyStr))

/-- What is read of an exception: itself, and its attributes `response` and `code`. -/
structure Raised where
  exc : PyErr
  response : Response
  code : Option ℤ

/-- `_err_code`. -/
def errCode (e : Raised) : Option PyStr :=
  match e.response with
  | .dict error => error.join
  | _ => none

/-- `_MISSING_CODES`. -/
def missingCodes : List PyStr := [py "404", py "NoSuchKey", py "NotFound"]

/-- `_PERMANENT_CODES` of `s3_storage.py`. -/
def s3PermanentCodes : List PyStr :=
  missingCodes ++ [py "403", py "AccessDenied", py "Forbidden", py "400", py "InvalidRequest"]

/-- `_is_missing`. -/
def isMissing (e : Raised) : Bool := (errCode e).any fun code => code ∈ missingCodes

/-- `_is_permanent` of `s3_storage.py`. -/
def s3IsPermanent (e : Raised) : Bool := (errCode e).any fun code => code ∈ s3PermanentCodes

/-- `_PERMANENT_CODES` of `gcs_storage.py`. -/
def gcsPermanentCodes : List ℤ := [400, 403, 404]

/-- `_is_permanent` of `gcs_storage.py`. -/
def gcsIsPermanent (e : Raised) : Bool :=
  (e.code.any fun code => code ∈ gcsPermanentCodes) ||
    e.exc.typeName ∈ [py "NotFound", py "Forbidden", py "BadRequest"]

/-- What stands after the loop of `retry_with`. -/
def assertionError : Raised := ⟨.other (py "AssertionError") [], .absent, none⟩

/-! ### Requests that are tried again -/

section Requests

variable {α : Type}

/-- A request: it is answered at the moment it is made. -/
def request (answer : ℕ → Except Raised α) : Comp ℕ Raised α := fun t => (answer t, t + 1)

/-- `time.sleep`; `nap` says how many moments it takes. -/
def sleepFor (nap : ℚ → ℕ) (delay : ℚ) : Comp ℕ Raised Unit := fun t => (.ok (), t + nap delay)

/-- `retry_with(lambda: …, is_permanent=_is_permanent)`. -/
def retried (nap : ℚ → ℕ) (isPermanent : Raised → Bool) (answer : ℕ → Except Raised α) : Comp ℕ Raised α :=
  retryWith Backoff.standard (request answer) (some isPermanent) none (sleepFor nap) assertionError

/-- The answer is an exception that another attempt can follow. -/
def transient (isPermanent : Raised → Bool) : Except Raised α → Bool
  | .ok _ => false
  | .error e => !isPermanent e

/-- The moment of the `k`-th attempt from the `i`-th one on, when those before it are transient. -/
def turn (b : Backoff) (nap : ℚ → ℕ) : ℕ → ℕ → ℕ → ℕ
  | _, t, 0 => t
  | i, t, k + 1 => turn b nap (i + 1) (t + 1 + nap (Script.backoff b i)) k

variable {b : Backoff} {nap : ℚ → ℕ} {isPermanent : Raised → Bool} {answer : ℕ → Except Raised α} {t : ℕ}

/-- **The loop from an attempt on.** -/
theorem tries_turns (nap : ℚ → ℕ) (isPermanent : Raised → Bool) (answer : ℕ → Except Raised α)
    (after : Option Raised → Comp ℕ Raised α) {i m : ℕ} (hmax : 0 ≤ b.maxDelay) (him : i + (m + 1) = b.attempts) {delay : ℚ}
    (hdelay : min delay b.maxDelay = Script.backoff b i) (lastExc : Option Raised) (t : ℕ) :
    ∃ n ≤ m, (∀ k < n, transient isPermanent (answer (turn b nap i t k)) = true) ∧
      (n = m ∨ transient isPermanent (answer (turn b nap i t n)) = false) ∧
      tries b (request answer) (some isPermanent) none (sleepFor nap) after (List.range' i (m + 1)) delay lastExc t =
        (answer (turn b nap i t n), turn b nap i t n + 1) := by
  induction m generalizing i delay lastExc t with
  | zero =>
      refine ⟨0, le_refl 0, fun k hk => absurd hk (Nat.not_lt_zero k), Or.inl rfl, ?_⟩
      rw [List.range'_succ, turn]
      cases hanswer : answer t with
      | ok a =>
          have hfn : request answer t = (.ok a, t + 1) := by rw [request, hanswer]
          rw [tries_of_ok hfn]
      | error e =>
          have hfn : request answer t = (.error e, t + 1) := by rw [request, hanswer]
          have hlast : i = b.attempts - 1 := by omega
          rw [tries_of_error hfn, if_pos hlast]
          split <;> rfl
  | succ m ih =>
      rw [List.range'_succ]
      cases hanswer : answer t with
      | ok a =>
          have hfn : request answer t = (.ok a, t + 1) := by rw [request, hanswer]
          refine ⟨0, Nat.zero_le _, fun k hk => absurd hk (Nat.not_lt_zero k), Or.inr ?_, ?_⟩
          · rw [turn, hanswer, transient]
          · rw [tries_of_ok hfn, turn, hanswer]
      | error e =>
          have hfn : request answer t = (.error e, t + 1) := by rw [request, hanswer]
          rw [tries_of_error hfn]
          cases hpermanent : isPermanent e with
          | true =>
              refine ⟨0, Nat.zero_le _, fun k hk => absurd hk (Nat.not_lt_zero k), Or.inr ?_, ?_⟩
              · rw [turn, hanswer, transient, hpermanent]
                rfl
              · rw [permanent, Option.elim_some, hpermanent, if_pos rfl, turn, hanswer]
                rfl
          | false =>
              have hnotLast : ¬i = b.attempts - 1 := by omega
              obtain ⟨n, hn, hbefore, hend, hrun⟩ := ih (i := i + 1) (by omega) (Script.backoff_succ hmax hdelay) (some e)
                (t + 1 + nap (Script.backoff b i))
              refine ⟨n + 1, Nat.succ_le_succ hn, fun k hk => ?_, ?_, ?_⟩
              · cases k with
                | zero =>
                    rw [turn, hanswer, transient, hpermanent]
                    rfl
                | succ k => exact hbefore k (Nat.lt_of_succ_lt_succ hk)
              · exact hend.imp (congrArg Nat.succ) id
              · rw [permanent, Option.elim_some, hpermanent, if_neg Bool.false_ne_true, if_neg hnotLast]
                show tries b (request answer) (some isPermanent) none (sleepFor nap) after (List.range' (i + 1) (m + 1))
                  (min (delay * 2) b.maxDelay) (some e) (t + 1 + nap (min delay b.maxDelay)) = _
                rw [hdelay, hrun, turn]

/-- The moment of the `k`-th attempt of a call that is made at the moment `t`. -/
def attemptAt (nap : ℚ → ℕ) (t k : ℕ) : ℕ := turn Backoff.standard nap 0 t k

/-- **A call that is tried again**: the attempts before the last one are transient, and that one is not, or is the sixth. -/
theorem retried_exact (nap : ℚ → ℕ) (isPermanent : Raised → Bool) (answer : ℕ → Except Raised α) (t : ℕ) :
    ∃ n < 6, (∀ k < n, transient isPermanent (answer (attemptAt nap t k)) = true) ∧
      (n = 5 ∨ transient isPermanent (answer (attemptAt nap t n)) = false) ∧
      retried nap isPermanent answer t = (answer (attemptAt nap t n), attemptAt nap t n + 1) := by
  have hmax : 0 ≤ Backoff.standard.maxDelay := by
    rw [Backoff.standard]
    norm_num
  have hdelay : min Backoff.standard.baseDelay Backoff.standard.maxDelay = Script.backoff Backoff.standard 0 := by
    rw [Script.backoff, pow_zero, mul_one]
  obtain ⟨n, hn, hrun⟩ := tries_turns nap isPermanent answer _ hmax (m := 5) rfl hdelay none t
  exact ⟨n, Nat.lt_succ_of_le hn, hrun⟩

/-- Within six attempts one is answered, or fails for good. -/
def Recovers (nap : ℚ → ℕ) (isPermanent : Raised → Bool) (answer : ℕ → Except Raised α) (t : ℕ) : Prop :=
  ∃ n < 6, (∀ k < n, transient isPermanent (answer (attemptAt nap t k)) = true) ∧
    transient isPermanent (answer (attemptAt nap t n)) = false

/-- **What a call comes to**: the answer to one of its attempts, which is not transient if one of them is not. -/
theorem retried_cases (nap : ℚ → ℕ) (isPermanent : Raised → Bool) (answer : ℕ → Except Raised α) (t : ℕ) :
    ∃ n < 6, (retried nap isPermanent answer t).1 = answer (attemptAt nap t n) ∧
      (Recovers nap isPermanent answer t ↔ transient isPermanent (answer (attemptAt nap t n)) = false) := by
  obtain ⟨n, hn, hbefore, hend, hrun⟩ := retried_exact nap isPermanent answer t
  refine ⟨n, hn, by rw [hrun], fun h => ?_, fun h => ⟨n, hn, hbefore, h⟩⟩
  obtain ⟨m, hm, hbefore', hdone⟩ := h
  rcases lt_trichotomy m n with hlt | rfl | hgt
  · rw [hbefore m hlt] at hdone
    cases hdone
  · exact hdone
  · rcases hend with rfl | hend
    · omega
    · exact hend

/-- A call that is not answered. -/
theorem unanswered {u : ℕ} {e : Raised} (hanswer : answer u = .error e)
    (h : Recovers nap isPermanent answer t ↔ transient isPermanent (answer u) = false) :
    isPermanent e = true ∨ ¬Recovers nap isPermanent answer t := by
  cases hpermanent : isPermanent e with
  | true => exact Or.inl rfl
  | false =>
      refine Or.inr fun hr => ?_
      have hdone := h.mp hr
      rw [hanswer, transient, hpermanent] at hdone
      cases hdone

/-- What is made of the result of a call. -/
theorem made_apply {β : Type} (call : Comp ℕ Raised α) (make : α → β) (t : ℕ) :
    ((do let a ← call; pure (make a) : Comp ℕ Raised β) t).1 = (call t).1.map make := by
  rw [bind_apply]
  rcases call t with ⟨out, t'⟩
  cases out <;> rfl

end Requests

/-- The listing is of objects that are held from the moment `t` on, with the fingerprints they have; none that stays is left
out.  `held` is what is held at each moment. -/
structure Lists (held : ℕ → PyStr → Option Stat) (keyPrefix : PyStr) (t : ℕ) (listings : List Listing) : Prop where
  found : ∀ lst ∈ listings, endsWith lst.key (py ".mcap") = true ∧ ∃ u, t ≤ u ∧ held u lst.key = some lst.stat
  complete : ∀ key, startsWith key keyPrefix = true → endsWith key (py ".mcap") = true →
    (∀ u, t ≤ u → held u key ≠ none) → ∃ lst ∈ listings, lst.key = key

/-! ### S3 -/

/-- A `datetime`: the seconds that `calendar.timegm` counts, and the microsecond. -/
structure Datetime where
  seconds : ℤ
  microsecond : ℕ

/-- `_last_modified_ns` of `s3_storage.py` and `_updated_ns` of `gcs_storage.py`. -/
def lastModifiedNs : Option Datetime → ℤ
  | none => 0
  | some d => d.seconds * 1000000000 + d.microsecond * 1000

/-- What `head_object` returns. -/
structure Head where
  contentLength : ℤ
  eTag : PyStr
  lastModified : Option Datetime

/-- One of the `Contents` of a page. -/
structure Entry where
  key : PyStr
  size : ℤ
  eTag : PyStr
  lastModified : Option Datetime

/-- The client of a bucket and a prefix: `head_object`, and the pages of a listing that is begun at a moment. -/
structure S3Client where
  headObject : ℕ → PyStr → Except Raised Head
  pages : ℕ → List (Except Raised (List Entry))

/-- The fingerprint that a HEAD gives. -/
def Head.stat (h : Head) : Stat := ⟨h.contentLength, stripQuotes h.eTag, lastModifiedNs h.lastModified⟩

/-- The listing that an entry gives. -/
def Entry.listing (o : Entry) : Listing := ⟨o.key, ⟨o.size, stripQuotes o.eTag, lastModifiedNs o.lastModified⟩⟩

namespace S3Client

variable (client : S3Client) (nap : ℚ → ℕ)

/-- `S3Source.stat`. -/
def stat (key : PyStr) : Comp ℕ Raised (Option Stat) := do
  match (← attempt (retried nap s3IsPermanent fun t => client.headObject t key)) with
  | .ok h => pure (some h.stat)
  | .error e => if isMissing e then pure none else raise e

/-- `list(S3Source.list_all())`: the pages are read as they come, without another attempt. -/
def listAll (t : ℕ) : Except Raised (List Listing) := do
  let pages ← (client.pages t).mapM id
  pure ((pages.flatten.filter fun o => endsWith o.key (py ".mcap")).map Entry.listing)

/-- `S3Source`; what its range reads come to is given. -/
def source (openSummary : ℕ → PyStr → ℤ → Except PyErr (Option Summary)) : Source where
  stat t key := (client.stat nap key t).1.mapError Raised.exc
  openSummary := openSummary
  listAll t := (client.listAll t).mapError Raised.exc
  eventKey payload := payload
  intendedKey _ _ := none
  waitForStable _ _ := true

/-- What is answered of an object. -/
def Describes (size : ℤ) (eTag : PyStr) (lastModified : Option Datetime) (o : S3Object) : Prop :=
  size = o.contentLength ∧ eTag = o.eTag ∧ lastModifiedNs lastModified = o.lastModifiedNs

/-- **The client answers what the bucket holds** at that moment, or raises, and only what is absent is missing; a listing is
read from that moment on. -/
structure Truthful (bucket : ℕ → Bucket) (keyPrefix : PyStr) : Prop where
  head : ∀ t key h, client.headObject t key = .ok h →
    ∃ o, (bucket t).lookup key = some o ∧ Describes h.contentLength h.eTag h.lastModified o
  missing : ∀ t key e, client.headObject t key = .error e → isMissing e = true → (bucket t).lookup key = none
  listed : ∀ t pages, (client.pages t).mapM id = .ok pages → ∀ entry ∈ pages.flatten,
    ∃ u, t ≤ u ∧ ∃ o, (bucket u).lookup entry.key = some o ∧ Describes entry.size entry.eTag entry.lastModified o
  complete : ∀ t pages, (client.pages t).mapM id = .ok pages → ∀ key, startsWith key keyPrefix = true →
    (∀ u, t ≤ u → (bucket u).lookup key ≠ none) → ∃ entry ∈ pages.flatten, entry.key = key

end S3Client

section S3

variable {client : S3Client} {nap : ℚ → ℕ} {bucket : ℕ → Bucket} {keyPrefix : PyStr}
  {openSummary : ℕ → PyStr → ℤ → Except PyErr (Option Summary)}

/-- What `S3Source.stat` makes of the outcome of its HEAD. -/
def headStat : Except Raised Head → Except Raised (Option Stat)
  | .ok h => .ok (some h.stat)
  | .error e => if isMissing e then .ok none else .error e

theorem stat_apply (client : S3Client) (nap : ℚ → ℕ) (key : PyStr) (t : ℕ) :
    (client.stat nap key t).1 = headStat (retried nap s3IsPermanent (fun t => client.headObject t key) t).1 := by
  rw [S3Client.stat, bind_of_ok (attempt_apply _ t)]
  cases (retried nap s3IsPermanent (fun t => client.headObject t key) t).1 with
  | ok h => rfl
  | error e =>
      rw [headStat]
      show ((if isMissing e = true then pure none else raise e : Comp ℕ Raised (Option Stat)) _).1 = _
      split <;> rfl

/-- Pages that are all answered are the listing. -/
theorem pages_cases (pages : List (Except Raised (List Entry))) :
    (∃ found, pages.mapM id = .ok found) ∨ ∃ e, .error e ∈ pages ∧ pages.mapM id = .error e := by
  induction pages with
  | nil => exact Or.inl ⟨[], rfl⟩
  | cons page pages ih =>
      rw [List.mapM_cons]
      cases page with
      | error e => exact Or.inr ⟨e, List.mem_cons_self, rfl⟩
      | ok found =>
          rcases ih with ⟨rest, hrest⟩ | ⟨e, hmem, hrest⟩
          · exact Or.inl ⟨found :: rest, by rw [hrest]; rfl⟩
          · exact Or.inr ⟨e, List.mem_cons_of_mem _ hmem, by rw [hrest]; rfl⟩

theorem stat_of_describes {size : ℤ} {eTag : PyStr} {lastModified : Option Datetime} {o : S3Object}
    (h : S3Client.Describes size eTag lastModified o) : (⟨size, stripQuotes eTag, lastModifiedNs lastModified⟩ : Stat) = o.stat := by
  rw [S3Object.stat, h.1, h.2.1, h.2.2]

/-- The fingerprints of what a bucket holds. -/
def s3Held (bucket : ℕ → Bucket) (t : ℕ) (key : PyStr) : Option Stat := ((bucket t).lookup key).map S3Object.stat

/-- The entries of the pages. -/
theorem lists_of_truthful (h : client.Truthful bucket keyPrefix) {t : ℕ} {pages : List (List Entry)}
    (hpages : (client.pages t).mapM id = .ok pages) :
    Lists (s3Held bucket) keyPrefix t ((pages.flatten.filter fun o => endsWith o.key (py ".mcap")).map Entry.listing) where
  found lst hlst := by
    obtain ⟨entry, hentry, rfl⟩ := List.mem_map.mp hlst
    obtain ⟨hmem, hends⟩ := List.mem_filter.mp hentry
    obtain ⟨u, htu, o, hlookup, hdescribes⟩ := h.listed t pages hpages entry hmem
    refine ⟨hends, u, htu, ?_⟩
    show ((bucket u).lookup entry.key).map S3Object.stat = _
    rw [hlookup, Option.map_some, ← stat_of_describes hdescribes]
    rfl
  complete key hstarts hends hstays := by
    have hthere : ∀ u, t ≤ u → (bucket u).lookup key ≠ none := fun u htu hnone => hstays u htu (by rw [s3Held, hnone]; rfl)
    obtain ⟨entry, hmem, rfl⟩ := h.complete t pages hpages key hstarts hthere
    exact ⟨entry.listing, List.mem_map_of_mem (List.mem_filter.mpr ⟨hmem, hends⟩), rfl⟩

/-- **What `S3Source` answers**: a fingerprint is that of the object at the moment of the last HEAD, and nothing is said to be
gone that was there; a listing has the fingerprints that a HEAD would have given, and no object that stays is left out.  What
raises is a permanent exception, or the sixth in a row; but one page of a listing that is not answered is enough. -/
theorem s3_answers (h : client.Truthful bucket keyPrefix) (nap : ℚ → ℕ)
    (openSummary : ℕ → PyStr → ℤ → Except PyErr (Option Summary)) (t : ℕ) (key : PyStr) :
    (∃ n < 6, ((client.source nap openSummary).stat t key = .ok (s3Held bucket (attemptAt nap t n) key) ∨
      ∃ e, client.headObject (attemptAt nap t n) key = .error e ∧
        (client.source nap openSummary).stat t key = .error e.exc ∧ isMissing e = false ∧
        (s3IsPermanent e = true ∨ ¬Recovers nap s3IsPermanent (fun t => client.headObject t key) t))) ∧
    ((∃ listings, (client.source nap openSummary).listAll t = .ok listings ∧ Lists (s3Held bucket) keyPrefix t listings) ∨
      ∃ e, .error e ∈ client.pages t ∧ (client.source nap openSummary).listAll t = .error e.exc) := by
  constructor
  · obtain ⟨n, hn, hrun, hrecovers⟩ := retried_cases nap s3IsPermanent (fun t => client.headObject t key) t
    refine ⟨n, hn, ?_⟩
    have hstat : (client.source nap openSummary).stat t key = (client.stat nap key t).1.mapError Raised.exc := rfl
    rw [hstat, stat_apply, hrun]
    cases hanswer : client.headObject (attemptAt nap t n) key with
    | ok head =>
        obtain ⟨o, hlookup, hdescribes⟩ := h.head _ key head hanswer
        refine Or.inl ?_
        rw [s3Held, hlookup, Option.map_some, ← stat_of_describes hdescribes]
        rfl
    | error e =>
        cases hmissing : isMissing e with
        | true =>
            refine Or.inl ?_
            rw [s3Held, h.missing _ key e hanswer hmissing]
            rw [headStat, hmissing, if_pos rfl]
            rfl
        | false =>
            refine Or.inr ⟨e, rfl, ?_, hmissing, unanswered hanswer hrecovers⟩
            rw [headStat, hmissing, if_neg Bool.false_ne_true]
            rfl
  · have hlist : (client.source nap openSummary).listAll t = (client.listAll t).mapError Raised.exc := rfl
    rw [hlist, S3Client.listAll]
    rcases pages_cases (client.pages t) with ⟨found, hpages⟩ | ⟨e, hmem, hpages⟩
    · refine Or.inl ⟨_, ?_, lists_of_truthful h hpages⟩
      rw [hpages]
      rfl
    · refine Or.inr ⟨e, hmem, ?_⟩
      rw [hpages]
      rfl

end S3

/-- The key of an object. -/
def objectKey : PyStr := py "bags/a.mcap"

/-- Nothing else is there. -/
theorem lookup_other {α : Type} {key : PyStr} (hkey : key ≠ objectKey) (a : α) :
    ((∅ : Rows PyStr α).insert objectKey a).lookup key = none := by
  rw [AList.lookup_insert_ne hkey, AList.lookup_empty]

/-- When it was modified. -/
def modified : Datetime := ⟨1700000000, 1⟩

/-- A bucket with one object. -/
def oneBucket : Bucket := (∅ : Bucket).insert objectKey ⟨py "abc", 100, lastModifiedNs (some modified), fun _ => .ok none⟩

/-- The store asks for fewer requests. -/
def slowDown : Raised :=
  ⟨.other (py "ClientError") (py "Please reduce your request rate."), .dict (some (some (py "SlowDown"))), none⟩

/-- There is no such object. -/
def notThere : Raised := ⟨.other (py "ClientError") (py "Not Found"), .dict (some (some (py "404"))), none⟩

/-- A client of it that answers every other request. -/
def throttledHead (t : ℕ) (key : PyStr) : Except Raised Head :=
  if t % 2 = 0 then .error slowDown
  else if key = objectKey then .ok ⟨100, py "abc", some modified⟩
  else .error notThere

def throttled : S3Client where
  headObject := throttledHead
  pages _ := [.ok [], .ok [⟨objectKey, 100, py "abc", some modified⟩]]

theorem truthful_throttled : throttled.Truthful (fun _ => oneBucket) [] where
  head t key h hanswer := by
    change throttledHead t key = _ at hanswer
    rw [throttledHead] at hanswer
    split at hanswer
    · cases hanswer
    · split at hanswer
      · rename_i hkey
        cases hanswer
        rw [hkey]
        exact ⟨_, AList.lookup_insert _, rfl, rfl, rfl⟩
      · cases hanswer
  missing t key e hanswer hmissing := by
    change throttledHead t key = _ at hanswer
    rw [throttledHead] at hanswer
    split at hanswer
    · cases hanswer
      exact absurd hmissing (by decide +kernel)
    · split at hanswer
      · cases hanswer
      · rename_i hkey
        exact lookup_other hkey _
  listed t pages hpages entry hentry := by
    have hfound : pages = [[], [⟨objectKey, 100, py "abc", some modified⟩]] := (Except.ok.inj hpages).symm
    rw [hfound] at hentry
    cases List.mem_singleton.mp hentry
    exact ⟨t, le_refl t, _, AList.lookup_insert _, rfl, rfl, rfl⟩
  complete t pages hpages key _ hstays := by
    have hfound : pages = [[], [⟨objectKey, 100, py "abc", some modified⟩]] := (Except.ok.inj hpages).symm
    rw [hfound]
    refine ⟨_, List.mem_singleton_self _, ?_⟩
    by_contra hkey
    exact hstays t (le_refl t) (lookup_other (Ne.symm hkey) _)

/-- The second attempt is answered. -/
theorem s3_answers_throttled :
    (throttled.source (fun _ => 0) fun _ _ _ => .ok none).stat 4 objectKey =
      .ok (some ⟨100, py "abc", 1700000000000001000⟩) := by
  obtain ⟨n, _, hfound | ⟨e, hanswer, _, _, hlost⟩⟩ :=
    (s3_answers truthful_throttled (fun _ => 0) (fun _ _ _ => .ok none) 4 objectKey).1
  · rw [hfound, s3Held, oneBucket, AList.lookup_insert]
    decide +kernel
  · have hslow : e = slowDown := by
      change throttledHead (attemptAt _ 4 n) objectKey = _ at hanswer
      rw [throttledHead, if_pos rfl] at hanswer
      split at hanswer
      · cases hanswer
        rfl
      · cases hanswer
    have hrecovers : Recovers (fun _ => 0) s3IsPermanent (fun t => throttled.headObject t objectKey) 4 :=
      ⟨1, by decide, by decide +kernel, by decide +kernel⟩
    rw [hslow] at hlost
    rcases hlost with hpermanent | hnever
    · exact absurd hpermanent (by decide +kernel)
    · exact absurd hrecovers hnever

/-! ### GCS -/

/-- An object of a GCS bucket. -/
structure GcsObject where
  size : ℤ
  generation : ℤ
  updatedNs : ℤ

/-- The fingerprint of an object: its change token is the generation. -/
def GcsObject.stat (o : GcsObject) : Stat := ⟨o.size, decimalInt o.generation, o.updatedNs⟩

/-- The fingerprints of what a bucket holds. -/
def gcsHeld (bucket : ℕ → Rows PyStr GcsObject) (t : ℕ) (key : PyStr) : Option Stat :=
  ((bucket t).lookup key).map GcsObject.stat

/-- What is read of a blob. -/
structure Blob where
  name : PyStr
  size : ℤ
  generation : ℤ
  updated : Option Datetime

/-- `_stat_from_blob`. -/
def statFromBlob (blob : Blob) : Stat := ⟨blob.size, decimalInt blob.generation, lastModifiedNs blob.updated⟩

/-- The client of a bucket and a prefix: `get_blob`, and a listing that is read to its end. -/
structure GcsClient where
  getBlob : ℕ → PyStr → Except Raised (Option Blob)
  listBlobs : ℕ → Except Raised (List Blob)

namespace GcsClient

variable (client : GcsClient) (nap : ℚ → ℕ)

/-- `GCSSource.stat`. -/
def stat (key : PyStr) : Comp ℕ Raised (Option Stat) := do
  let blob ← retried nap gcsIsPermanent fun t => client.getBlob t key
  pure (blob.map statFromBlob)

/-- `list(GCSSource.list_all())`. -/
def listAll : Comp ℕ Raised (List Listing) := do
  let blobs ← retried nap gcsIsPermanent client.listBlobs
  pure ((blobs.filter fun blob => endsWith blob.name (py ".mcap")).map fun blob => ⟨blob.name, statFromBlob blob⟩)

/-- `GCSSource`; what its range reads come to is given. -/
def source (openSummary : ℕ → PyStr → ℤ → Except PyErr (Option Summary)) : Source where
  stat t key := (client.stat nap key t).1.mapError Raised.exc
  openSummary := openSummary
  listAll t := (client.listAll nap t).1.mapError Raised.exc
  eventKey payload := payload
  intendedKey _ _ := none
  waitForStable _ _ := true

/-- A blob with the metadata of an object. -/
def Describes (blob : Blob) (o : GcsObject) : Prop :=
  blob.size = o.size ∧ blob.generation = o.generation ∧ lastModifiedNs blob.updated = o.updatedNs

/-- **The client answers what the bucket holds** at that moment, or raises; a listing is read from that moment on. -/
structure Truthful (bucket : ℕ → Rows PyStr GcsObject) (keyPrefix : PyStr) : Prop where
  absent : ∀ t key, client.getBlob t key = .ok none → (bucket t).lookup key = none
  blob : ∀ t key blob, client.getBlob t key = .ok (some blob) → ∃ o, (bucket t).lookup key = some o ∧ Describes blob o
  listed : ∀ t blobs, client.listBlobs t = .ok blobs → ∀ blob ∈ blobs,
    ∃ u, t ≤ u ∧ ∃ o, (bucket u).lookup blob.name = some o ∧ Describes blob o
  complete : ∀ t blobs, client.listBlobs t = .ok blobs → ∀ key, startsWith key keyPrefix = true →
    (∀ u, t ≤ u → (bucket u).lookup key ≠ none) → ∃ blob ∈ blobs, blob.name = key

end GcsClient

section Gcs

variable {client : GcsClient} {bucket : ℕ → Rows PyStr GcsObject} {keyPrefix : PyStr}

theorem statFromBlob_eq {blob : Blob} {o : GcsObject} (h : GcsClient.Describes blob o) : statFromBlob blob = o.stat := by
  rw [statFromBlob, GcsObject.stat, h.1, h.2.1, h.2.2]

/-- The blobs of a listing. -/
theorem lists_of_blobs (h : client.Truthful bucket keyPrefix) {t : ℕ} {blobs : List Blob}
    (hblobs : client.listBlobs t = .ok blobs) :
    Lists (gcsHeld bucket) keyPrefix t
      ((blobs.filter fun blob => endsWith blob.name (py ".mcap")).map fun blob => ⟨blob.name, statFromBlob blob⟩) where
  found lst hlst := by
    obtain ⟨blob, hblob, rfl⟩ := List.mem_map.mp hlst
    obtain ⟨hmem, hends⟩ := List.mem_filter.mp hblob
    obtain ⟨u, htu, o, hlookup, hdescribes⟩ := h.listed t blobs hblobs blob hmem
    refine ⟨hends, u, htu, ?_⟩
    show ((bucket u).lookup blob.name).map GcsObject.stat = some (statFromBlob blob)
    rw [hlookup, Option.map_some, statFromBlob_eq hdescribes]
  complete key hstarts hends hstays := by
    have hthere : ∀ u, t ≤ u → (bucket u).lookup key ≠ none := fun u htu hnone => hstays u htu (by rw [gcsHeld, hnone]; rfl)
    obtain ⟨blob, hmem, rfl⟩ := h.complete t blobs hblobs key hstarts hthere
    exact ⟨⟨blob.name, statFromBlob blob⟩, List.mem_map_of_mem (List.mem_filter.mpr ⟨hmem, hends⟩), rfl⟩

/-- **What `GCSSource` answers**: a fingerprint is that of the object at the moment of the last attempt, and a listing is read
from the moment of its last attempt on; what raises is a permanent exception, or the sixth in a row. -/
theorem gcs_answers (h : client.Truthful bucket keyPrefix) (nap : ℚ → ℕ)
    (openSummary : ℕ → PyStr → ℤ → Except PyErr (Option Summary)) (t : ℕ) (key : PyStr) :
    (∃ n < 6, ((client.source nap openSummary).stat t key = .ok (gcsHeld bucket (attemptAt nap t n) key) ∨
      ∃ e, client.getBlob (attemptAt nap t n) key = .error e ∧ (client.source nap openSummary).stat t key = .error e.exc ∧
        (gcsIsPermanent e = true ∨ ¬Recovers nap gcsIsPermanent (fun t => client.getBlob t key) t))) ∧
    ∃ n < 6, ((∃ listings, (client.source nap openSummary).listAll t = .ok listings ∧
        Lists (gcsHeld bucket) keyPrefix (attemptAt nap t n) listings) ∨
      ∃ e, client.listBlobs (attemptAt nap t n) = .error e ∧ (client.source nap openSummary).listAll t = .error e.exc ∧
        (gcsIsPermanent e = true ∨ ¬Recovers nap gcsIsPermanent client.listBlobs t)) := by
  constructor
  · obtain ⟨n, hn, hrun, hrecovers⟩ := retried_cases nap gcsIsPermanent (fun t => client.getBlob t key) t
    refine ⟨n, hn, ?_⟩
    have hstat : (client.source nap openSummary).stat t key =
        ((client.getBlob (attemptAt nap t n) key).map fun blob => blob.map statFromBlob).mapError Raised.exc := by
      rw [← hrun, ← made_apply]
      rfl
    rw [hstat]
    cases hanswer : client.getBlob (attemptAt nap t n) key with
    | ok found =>
        refine Or.inl ?_
        cases found with
        | none =>
            rw [gcsHeld, h.absent _ key hanswer]
            rfl
        | some blob =>
            obtain ⟨o, hlookup, hdescribes⟩ := h.blob _ key blob hanswer
            rw [gcsHeld, hlookup, Option.map_some, ← statFromBlob_eq hdescribes]
            rfl
    | error e => exact Or.inr ⟨e, rfl, rfl, unanswered hanswer hrecovers⟩
  · obtain ⟨n, hn, hrun, hrecovers⟩ := retried_cases nap gcsIsPermanent client.listBlobs t
    refine ⟨n, hn, ?_⟩
    have hlist : (client.source nap openSummary).listAll t = ((client.listBlobs (attemptAt nap t n)).map fun blobs =>
        (blobs.filter fun blob => endsWith blob.name (py ".mcap")).map fun blob =>
          (⟨blob.name, statFromBlob blob⟩ : Listing)).mapError Raised.exc := by
      rw [← hrun, ← made_apply]
      rfl
    rw [hlist]
    cases hanswer : client.listBlobs (attemptAt nap t n) with
    | ok blobs => exact Or.inl ⟨_, rfl, lists_of_blobs h hanswer⟩
    | error e => exact Or.inr ⟨e, rfl, rfl, unanswered hanswer hrecovers⟩

end Gcs

/-- The backend is unavailable. -/
def unavailable : Raised := ⟨.other (py "ServiceUnavailable") (py "503"), .absent, some 503⟩

/-- A bucket with one object, and a client of it that answers every other request. -/
def oneGcsBucket : Rows PyStr GcsObject :=
  (∅ : Rows PyStr GcsObject).insert objectKey ⟨100, 7, lastModifiedNs (some modified)⟩

def unsteadyBlob (t : ℕ) (key : PyStr) : Except Raised (Option Blob) :=
  if t % 2 = 0 then .error unavailable
  else if key = objectKey then .ok (some ⟨objectKey, 100, 7, some modified⟩)
  else .ok none

def unsteadyBlobs (t : ℕ) : Except Raised (List Blob) :=
  if t % 2 = 0 then .error unavailable else .ok [⟨objectKey, 100, 7, some modified⟩]

def unsteady : GcsClient := ⟨unsteadyBlob, unsteadyBlobs⟩

theorem truthful_unsteady : unsteady.Truthful (fun _ => oneGcsBucket) [] where
  absent t key hanswer := by
    change unsteadyBlob t key = _ at hanswer
    rw [unsteadyBlob] at hanswer
    split at hanswer
    · cases hanswer
    · split at hanswer
      · cases hanswer
      · rename_i hkey
        exact lookup_other hkey _
  blob t key blob hanswer := by
    change unsteadyBlob t key = _ at hanswer
    rw [unsteadyBlob] at hanswer
    split at hanswer
    · cases hanswer
    · split at hanswer
      · rename_i hkey
        cases hanswer
        rw [hkey]
        exact ⟨_, AList.lookup_insert _, rfl, rfl, rfl⟩
      · cases hanswer
  listed t blobs hanswer blob hblob := by
    change unsteadyBlobs t = _ at hanswer
    rw [unsteadyBlobs] at hanswer
    split at hanswer
    · cases hanswer
    · cases hanswer
      cases List.mem_singleton.mp hblob
      exact ⟨t, le_refl t, _, AList.lookup_insert _, rfl, rfl, rfl⟩
  complete t blobs hanswer key _ hstays := by
    change unsteadyBlobs t = _ at hanswer
    rw [unsteadyBlobs] at hanswer
    split at hanswer
    · cases hanswer
    · cases hanswer
      refine ⟨_, List.mem_singleton_self _, ?_⟩
      by_contra hkey
      exact hstays t (le_refl t) (lookup_other (Ne.symm hkey) _)

/-- The second listing goes through. -/
theorem gcs_answers_unsteady : ∃ listings, (unsteady.source (fun _ => 0) fun _ _ _ => .ok none).listAll 4 = .ok listings ∧
    ∃ lst ∈ listings, lst.key = objectKey := by
  obtain ⟨n, _, ⟨listings, hlist, hlists⟩ | ⟨e, hanswer, _, hlost⟩⟩ :=
    (gcs_answers truthful_unsteady (fun _ => 0) (fun _ _ _ => .ok none) 4 objectKey).2
  · refine ⟨listings, hlist, hlists.complete objectKey (by decide) (by decide) fun u _ hnone => ?_⟩
    rw [gcsHeld, oneGcsBucket, AList.lookup_insert] at hnone
    cases hnone
  · have hslow : e = unavailable := by
      change unsteadyBlobs (attemptAt _ 4 n) = _ at hanswer
      rw [unsteadyBlobs] at hanswer
      split at hanswer
      · cases hanswer
        rfl
      · cases hanswer
    have hrecovers : Recovers (fun _ => 0) gcsIsPermanent unsteady.listBlobs 4 :=
      ⟨1, by decide, by decide +kernel, by decide +kernel⟩
    rw [hslow] at hlost
    rcases hlost with hpermanent | hnever
    · exact absurd hpermanent (by decide +kernel)
    · exact absurd hrecovers hnever

end McapCatalog.ObjectClients
