import McapCatalog.Discovery
import McapCatalog.TagIpc

/-!
# Acknowledged notifications

`s3_event_producer` on whatever a queue delivers.  A message is deleted, which acknowledges it, after its records were
enqueued; an exception inside its body ends the enqueueing of that body, not the acknowledgement.

* `recordEvent`, `enqueueRecords` — what a record comes to, and a body of them;
* `Notifies` — the records that are well formed and about a catalogable key;
* `handleMessages`, `s3EventProducer` — the loop, with what it puts and acknowledges in order;
* `CompleteWhenDeleted` — every acknowledged message has had its events, once and in order;
* `complete_iff_orderly` — **that is so exactly if no malformed record of such a message comes before a well-formed one**;
* `enqueueRecords_json` — the records of `Discovery` are such records.
-/

namespace McapCatalog.Notifications

open McapCatalog.PyText McapCatalog.UrlText McapCatalog.Worker McapCatalog.TagIpc
open McapCatalog.Discovery (S3Record)

/-! ### Records -/

/-- `value.get(name, default)`. -/
def get (entries : List (PyStr × Json)) (name : PyStr) (default : Json) : Json :=
  ((entries.find? fun e => e.1 = name).map Prod.snd).getD default

/-- `value[name]`; `none` when that raises. -/
def index (value : Json) (name : PyStr) : Option Json :=
  match value with
  | .object entries => (entries.find? fun e => e.1 = name).map Prod.snd
  | _ => none

/-- `rec["s3"]["object"]["key"]`. -/
def objectKey (record : Json) : Option Json := do
  let s3 ← index record (py "s3")
  let object ← index s3 (py "object")
  index object (py "key")

/-- One record: `none` when it raises, else the event it puts, if it puts one. -/
def recordEvent (record : Json) : Option (Option WorkItem) :=
  match record with
  | .object entries =>
    let name := get entries (py "eventName") (.string [])
    match objectKey record with
    | some (.string encoded) =>
      let key := unquotePlus encoded
      if !endsWith key (py ".mcap") then some none
      else
        match name with
        | .string name =>
          if startsWith name (py "ObjectCreated") then some (some (.catalog key))
          else if startsWith name (py "ObjectRemoved") then some (some (.delete key))
          else some none
        | _ => none
    | _ => none
  | _ => none

/-- The loop of `_enqueue_records`: what it has put when it returns or raises. -/
def enqueueRecords : List Json → List WorkItem
  | [] => []
  | record :: records =>
    match recordEvent record with
    | none => []
    | some none => enqueueRecords records
    | some (some item) => item :: enqueueRecords records

/-- `for rec in value`; `none` when the value cannot be iterated. -/
def iterate : Json → Option (List Json)
  | .array items => some items
  | .object entries => some (entries.map fun e => .string e.1)
  | .string s => some (s.map fun c => .string [c])
  | _ => none

/-- What is iterated of a body; `none` is one that `json.loads` does not parse. -/
def records : Option Json → List Json
  | some (.object entries) => (iterate (get entries (py "Records") (.array []))).getD []
  | _ => []

/-- The record is well formed, says that an object was created or removed, and its key is of a recording. -/
inductive Notifies (record : Json) : WorkItem → Prop where
  | created {entries : List (PyStr × Json)} {name encoded : PyStr} (hrecord : record = .object entries)
      (hname : get entries (py "eventName") (.string []) = .string name) (hkey : objectKey record = some (.string encoded))
      (hmcap : endsWith (unquotePlus encoded) (py ".mcap") = true) (hcreated : startsWith name (py "ObjectCreated") = true) :
      Notifies record (.catalog (unquotePlus encoded))
  | removed {entries : List (PyStr × Json)} {name encoded : PyStr} (hrecord : record = .object entries)
      (hname : get entries (py "eventName") (.string []) = .string name) (hkey : objectKey record = some (.string encoded))
      (hmcap : endsWith (unquotePlus encoded) (py ".mcap") = true) (hremoved : startsWith name (py "ObjectRemoved") = true) :
      Notifies record (.delete (unquotePlus encoded))

/-- The event of a record, if it is well formed and there is one. -/
def notice (record : Json) : Option WorkItem := (recordEvent record).join

/-- The events of the records of a message, in order. -/
def notices (body : Option Json) : List WorkItem := (records body).filterMap notice

theorem not_both_prefixes {name : PyStr} (hcreated : startsWith name (py "ObjectCreated") = true)
    (hremoved : startsWith name (py "ObjectRemoved") = true) : False := by
  obtain ⟨s, hs⟩ := List.isPrefixOf_iff_prefix.mp hcreated
  obtain ⟨t, ht⟩ := List.isPrefixOf_iff_prefix.mp hremoved
  have hsame := congrArg (List.take 7) (hs.trans ht.symm)
  rw [List.take_append_of_le_length (by decide), List.take_append_of_le_length (by decide)] at hsame
  exact absurd hsame (by decide)

/-- **The events of well-formed records.** -/
theorem notice_eq_some_iff (record : Json) (item : WorkItem) : notice record = some item ↔ Notifies record item := by
  constructor
  · intro h
    rw [notice, Option.join_eq_some_iff] at h
    cases record with
    | object entries =>
        rw [recordEvent] at h
        split at h
        · rename_i encoded hkey
          dsimp only at h
          split at h
          · cases h
          · rename_i hends
            have hmcap : endsWith (unquotePlus encoded) (py ".mcap") = true := by simpa using hends
            split at h
            · rename_i name hname
              split at h
              · rename_i hcreated
                cases h
                exact .created rfl hname hkey hmcap hcreated
              · split at h
                · rename_i hremoved
                  cases h
                  exact .removed rfl hname hkey hmcap hremoved
                · cases h
            · cases h
        · cases h
    | _ => cases h
  · intro h
    cases h with
    | created hrecord hname hkey hmcap hcreated =>
        subst hrecord
        rw [notice, recordEvent, hkey]
        dsimp only
        rw [hmcap, hname]
        dsimp only
        rw [if_neg (by decide), if_pos hcreated]
        rfl
    | removed hrecord hname hkey hmcap hremoved =>
        subst hrecord
        rw [notice, recordEvent, hkey]
        dsimp only
        rw [hmcap, hname]
        dsimp only
        rw [if_neg (by decide), if_neg fun hcreated => not_both_prefixes hcreated hremoved, if_pos hremoved]
        rfl

/-- No malformed record comes before one with an event. -/
def Orderly (body : Option Json) : Prop :=
  (records body).Pairwise fun record later => recordEvent record = none → notice later = none

/-- **A body comes to all its events exactly if it is orderly.** -/
theorem enqueueRecords_eq_iff (rs : List Json) : enqueueRecords rs = rs.filterMap notice ↔
    rs.Pairwise fun record later => recordEvent record = none → notice later = none := by
  induction rs with
  | nil => exact iff_of_true rfl List.Pairwise.nil
  | cons record rs ih =>
      rw [List.pairwise_cons, enqueueRecords]
      cases hevent : recordEvent record with
      | none =>
          have hnotice : notice record = none := by rw [notice, hevent]; rfl
          rw [List.filterMap_cons_none hnotice]
          constructor
          · intro h
            have hall : ∀ later ∈ rs, notice later = none := List.filterMap_eq_nil_iff.mp h.symm
            exact ⟨fun later hlater _ => hall later hlater,
              List.pairwise_of_forall_mem_list fun _ _ later hlater _ => hall later hlater⟩
          · intro h
            exact (List.filterMap_eq_nil_iff.mpr fun later hlater => h.1 later hlater rfl).symm
      | some event =>
          have hnotice : notice record = event := by rw [notice, hevent]; rfl
          have hvacuous : (∀ later ∈ rs, some event = none → notice later = none) ∧ rs.Pairwise
              (fun record later => recordEvent record = none → notice later = none) ↔
              rs.Pairwise fun record later => recordEvent record = none → notice later = none :=
            and_iff_right fun _ _ h => by cases h
          rw [hvacuous, ← ih]
          cases event with
          | none => rw [List.filterMap_cons_none hnotice]
          | some item =>
              rw [List.filterMap_cons_some hnotice]
              exact ⟨fun h => (List.cons.inj h).2, congrArg (item :: ·)⟩

/-! ### The producer -/

/-- An SQS message: what `json.loads(msg.get("Body", "{}"))` comes to, and its receipt handle, if it has one. -/
structure Message where
  body : Option Json
  receiptHandle : Option PyStr

/-- A message of a batch, and whether its `delete_message` raises. -/
structure Delivery where
  message : Message
  deleteRaises : Bool

/-- What `receive_message` comes to. -/
inductive Response where
  | raises
  | batch (deliveries : List Delivery)

/-- What the producer does: it puts an event, or calls `delete_message` for a message. -/
inductive Event where
  | put (item : WorkItem)
  | delete (message : Message)

/-- The loop over a batch: what is done, and whether it went through. -/
def handleMessages : List Delivery → List Event × Bool
  | [] => ([], true)
  | d :: ds =>
    let puts := (enqueueRecords (records d.message.body)).map Event.put
    match d.message.receiptHandle with
    | none => (puts, false)
    | some _ =>
      if d.deleteRaises then (puts ++ [.delete d.message], false)
      else
        let rest := handleMessages ds
        (puts ++ .delete d.message :: rest.1, rest.2)

/-- `s3_event_producer`, until it is stopped or an exception ends it. -/
def s3EventProducer : List Response → List Event
  | [] => []
  | .raises :: _ => []
  | .batch ds :: responses =>
    let done := handleMessages ds
    done.1 ++ if done.2 then s3EventProducer responses else []

/-- What was put since the last call of `delete_message`. -/
def sinceDelete (events : List Event) : List WorkItem :=
  events.foldl (fun items e => match e with | .put item => items ++ [item] | .delete _ => []) []

/-- **No acknowledged notification is dropped**: when `delete_message` is called for a message, the events of its
well-formed records have been put since the last call, each once and in order, and nothing else. -/
def CompleteWhenDeleted (events : List Event) : Prop :=
  ∀ before message after, events = before ++ .delete message :: after → sinceDelete before = notices message.body

/-! ### Runs -/

section Runs

variable {items : List WorkItem} {before after rest : List Event} {first message : Message}

theorem sinceDelete_append (h : sinceDelete before = []) (after : List Event) :
    sinceDelete (before ++ after) = sinceDelete after := by
  rw [sinceDelete, List.foldl_append]
  rw [sinceDelete] at h
  rw [h]
  rfl

theorem sinceDelete_puts (items : List WorkItem) : sinceDelete (items.map Event.put) = items := by
  induction items using List.reverseRecOn with
  | nil => rfl
  | append_singleton items item ih =>
      rw [List.map_append, sinceDelete, List.foldl_append, ← sinceDelete, ih]
      rfl

theorem sinceDelete_delete (before : List Event) (message : Message) : sinceDelete (before ++ [.delete message]) = [] := by
  rw [sinceDelete, List.foldl_append]
  rfl

/-- Events that are put hold no call of `delete_message`. -/
theorem not_delete_of_puts (h : items.map Event.put = before ++ .delete message :: after) : False := by
  have hmem : Event.delete message ∈ items.map Event.put := by
    rw [h]
    exact List.mem_append_right _ List.mem_cons_self
  obtain ⟨_, _, heq⟩ := List.mem_map.mp hmem
  cases heq

/-- A call of `delete_message` after some puts is the first one or comes after it. -/
theorem split_puts (h : items.map Event.put ++ .delete first :: rest = before ++ .delete message :: after) :
    (before = items.map Event.put ∧ message = first) ∨
      ∃ later, before = (items.map Event.put ++ [.delete first]) ++ later ∧ rest = later ++ .delete message :: after := by
  induction items generalizing before with
  | nil =>
      cases before with
      | nil =>
          obtain ⟨hfirst, _⟩ := List.cons.inj h
          cases hfirst
          exact Or.inl ⟨rfl, rfl⟩
      | cons e before =>
          obtain ⟨hfirst, hrest⟩ := List.cons.inj h
          exact Or.inr ⟨before, by rw [← hfirst]; rfl, hrest⟩
  | cons item items ih =>
      cases before with
      | nil =>
          obtain ⟨hfirst, _⟩ := List.cons.inj h
          cases hfirst
      | cons e before =>
          obtain ⟨hfirst, hrest⟩ := List.cons.inj h
          cases ih hrest with
          | inl hhere => exact Or.inl ⟨by rw [← hfirst, hhere.1]; rfl, hhere.2⟩
          | inr hlater =>
              obtain ⟨later, hbefore, hafter⟩ := hlater
              exact Or.inr ⟨later, by rw [← hfirst, hbefore]; rfl, hafter⟩

/-- **One batch**: what was put for a message is what its body came to. -/
theorem handleMessages_deletes (ds : List Delivery) {before after : List Event}
    (h : (handleMessages ds).1 = before ++ .delete message :: after) :
    sinceDelete before = enqueueRecords (records message.body) := by
  induction ds generalizing before with
  | nil => simp [handleMessages] at h
  | cons d ds ih =>
      rw [handleMessages] at h
      split at h
      · exact absurd h not_delete_of_puts
      · split at h
        · cases split_puts h with
          | inl hhere => rw [hhere.1, hhere.2, sinceDelete_puts]
          | inr hlater =>
              obtain ⟨later, _, hafter⟩ := hlater
              simp at hafter
        · cases split_puts h with
          | inl hhere => rw [hhere.1, hhere.2, sinceDelete_puts]
          | inr hlater =>
              obtain ⟨later, hbefore, hafter⟩ := hlater
              rw [hbefore, sinceDelete_append (sinceDelete_delete _ _)]
              exact ih hafter

/-- A batch that went through leaves nothing that is not acknowledged. -/
theorem handleMessages_through (ds : List Delivery) (h : (handleMessages ds).2 = true) :
    sinceDelete (handleMessages ds).1 = [] := by
  induction ds with
  | nil => rfl
  | cons d ds ih =>
      rw [handleMessages] at h ⊢
      split at h
      · cases h
      · simp only
        split at h
        · cases h
        · rename_i hraises
          rw [if_neg hraises, List.append_cons, sinceDelete_append (sinceDelete_delete _ _)]
          exact ih h

/-- **A run.** -/
theorem s3EventProducer_deletes (responses : List Response) {before after : List Event}
    (h : s3EventProducer responses = before ++ .delete message :: after) :
    sinceDelete before = enqueueRecords (records message.body) := by
  induction responses generalizing before with
  | nil => simp [s3EventProducer] at h
  | cons response responses ih =>
      cases response with
      | raises => simp [s3EventProducer] at h
      | batch ds =>
          rw [s3EventProducer] at h
          rcases List.append_eq_append_iff.mp h with ⟨later, hbefore, hrest⟩ | ⟨later, hbatch, hrest⟩
          · split at hrest
            · rename_i hthrough
              rw [hbefore, sinceDelete_append (handleMessages_through ds hthrough)]
              exact ih hrest
            · simp at hrest
          · cases later with
            | nil =>
                rw [List.append_nil] at hbatch
                split at hrest
                · rename_i hthrough
                  have hhere : s3EventProducer responses = [] ++ .delete message :: after := hrest.symm
                  have hnone := ih hhere
                  rw [← hbatch, handleMessages_through ds hthrough]
                  exact hnone
                · cases hrest
            | cons e later =>
                obtain ⟨hfirst, _⟩ := List.cons.inj hrest
                rw [← hfirst] at hbatch
                exact handleMessages_deletes ds hbatch

/-- **No acknowledged notification is dropped, exactly if the acknowledged messages are orderly.** -/
theorem complete_iff_orderly (responses : List Response) : CompleteWhenDeleted (s3EventProducer responses) ↔
    ∀ message, .delete message ∈ s3EventProducer responses → Orderly message.body := by
  constructor
  · intro hcomplete message hmem
    obtain ⟨before, after, h⟩ := List.append_of_mem hmem
    have hput := s3EventProducer_deletes responses h
    rw [hcomplete before message after h] at hput
    exact (enqueueRecords_eq_iff _).mp hput.symm
  · intro horderly before message after h
    rw [s3EventProducer_deletes responses h]
    refine (enqueueRecords_eq_iff _).mpr (horderly message ?_)
    rw [h]
    exact List.mem_append_right _ List.mem_cons_self

end Runs

/-! ### A malformed record before a well-formed one -/

/-- A record of a created object. -/
def createdRecord (key : PyStr) : Json :=
  .object [(py "eventName", .string (py "ObjectCreated:Put")), (py "s3", .object [(py "object", .object [(py "key", .string key)])])]

/-- A message whose first record has no object. -/
def halfMalformed : Message where
  body := some (.object [(py "Records", .array [.object [(py "eventName", .string (py "ObjectCreated:Put"))],
    createdRecord (py "a.mcap")])])
  receiptHandle := some (py "rh-1")

theorem halfMalformed_dropped : ¬CompleteWhenDeleted (s3EventProducer [.batch [⟨halfMalformed, false⟩]]) := by
  intro hcomplete
  have hdelete : s3EventProducer [.batch [⟨halfMalformed, false⟩]] = [] ++ .delete halfMalformed :: [] := rfl
  have hnotices := hcomplete [] halfMalformed [] hdelete
  have hone : (notices halfMalformed.body).length = 1 := by decide +kernel
  rw [← hnotices] at hone
  cases hone

/-! ### Records of one shape -/

/-- The JSON of a record. -/
def jsonOf (record : S3Record) : Json :=
  .object [(py "eventName", .string record.eventName),
    (py "s3", .object [(py "bucket", .object [(py "name", .string record.bucket)]),
      (py "object", .object ((record.key.map fun key => (py "key", Json.string key)).toList))])]

/-- **The records of `Discovery` are such records.** -/
theorem enqueueRecords_json (rs : List S3Record) : enqueueRecords (rs.map jsonOf) = Discovery.enqueueRecords rs := by
  induction rs with
  | nil => rfl
  | cons record rs ih =>
      have hname : ∀ rest, get ((py "eventName", .string record.eventName) :: rest) (py "eventName") (.string []) =
          .string record.eventName := fun _ => rfl
      have hkey : objectKey (jsonOf record) = record.key.map Json.string := by
        cases hrecord : record.key with
        | none => rw [jsonOf, hrecord]; rfl
        | some key => rw [jsonOf, hrecord]; rfl
      rw [List.map_cons, enqueueRecords, Discovery.enqueueRecords, ← ih]
      have hevent : recordEvent (jsonOf record) = match record.key with
          | none => none
          | some encoded => if !endsWith (unquotePlus encoded) (py ".mcap") then some none
            else if startsWith record.eventName (py "ObjectCreated") then some (some (.catalog (unquotePlus encoded)))
            else if startsWith record.eventName (py "ObjectRemoved") then some (some (.delete (unquotePlus encoded)))
            else some none := by
        rw [jsonOf] at hkey ⊢
        rw [recordEvent, hkey]
        cases record.key with
        | none => rfl
        | some encoded => rw [Option.map_some]; dsimp only; rw [hname]
      rw [hevent]
      cases record.key with
      | none => rfl
      | some encoded =>
          dsimp only
          split_ifs <;> rfl

end McapCatalog.Notifications
