import McapCatalog.EditReplies

/-!
# The grammar of tag-edit requests

What `do_POST` accepts of a body, against the grammar of its contract.  The checks are a chain of early returns, and two of
them first replace a falsy value by an empty one.

* `HiveKey`, `SetTags`, `UnsetKeys`, `Asked`, `Grammatical` — the grammar, and the edit that a body asks for;
* `checkRequest_ok_iff` — what the checks accept;
* `Judged`, `Steps.judged` — every handler is where the checks of its request sent it;
* `Exact` — the endpoint accepts exactly the grammar, in every run;
* `exact_iff` — **that is so for a body exactly if `json.loads` copes with it and no falsy value of a wrong type is taken for
  an absent one.**
-/

namespace McapCatalog.TagIpc

open McapCatalog.PyText McapCatalog.PyError McapCatalog.KeyParse McapCatalog.Connection McapCatalog.Reconcile
open McapCatalog.Worker McapCatalog.Runs McapCatalog.Builder

/-! ### The grammar -/

/-- The field of an object, if it has it. -/
def field (entries : List (PyStr × Json)) (name : PyStr) : Option Json :=
  (entries.find? fun e => e.1 = name).map Prod.snd

/-- A non-empty string that parses and round-trips as a Hive key. -/
inductive HiveKey : Option Json → Dims → Prop where
  | string {key : PyStr} {dims : Dims} (hne : key ≠ []) (hparse : parseHiveKey key = some dims)
      (htrip : rebuildHiveKey dims = lstrip key (cp '/')) : HiveKey (some (.string key)) dims

/-- Absent, null, or an object with only string values. -/
inductive SetTags : Option Json → List (PyStr × PyStr) → Prop where
  | absent : SetTags none []
  | null : SetTags (some .null) []
  | object (tags : List (PyStr × PyStr)) : SetTags (some (.object (tags.map fun t => (t.1, .string t.2)))) tags

/-- Absent, null, or a list of strings. -/
inductive UnsetKeys : Option Json → List PyStr → Prop where
  | absent : UnsetKeys none []
  | null : UnsetKeys (some .null) []
  | list (keys : List PyStr) : UnsetKeys (some (.array (keys.map .string))) keys

/-- The fields of a request, and the edit it asks for. -/
structure Asked (entries : List (PyStr × Json)) (edit : Edit) : Prop where
  key : HiveKey (field entries (py "key")) edit.dims
  setTags : SetTags (field entries (py "set_tags")) edit.setTags
  unsetKeys : UnsetKeys (field entries (py "unset_keys")) edit.unsetKeys

/-- A body: its JSON value, if it is JSON, and an exception of `json.loads` that `do_POST` does not expect, if it raises
one (`RecursionError`, or the `ValueError` for an integer with too many digits). -/
structure Text where
  value : Option Json
  raises : Option PyErr

/-- What parsing the body comes to. -/
def Text.parsed (text : Text) : Except PyErr (Option Json) :=
  match text.raises with
  | some e => .error e
  | none => .ok text.value

/-- The body is in the grammar, and asks for this edit. -/
def Grammatical (text : Text) (edit : Edit) : Prop :=
  ∃ entries, text.value = some (.object entries) ∧ Asked entries edit

/-- The request posts this body, whose length is within the cap. -/
structure Posts (request : Request) (text : Text) : Prop where
  path : request.path = py "/update_tags"
  length : ∃ n, request.contentLength = .value n ∧ 0 ≤ n ∧ n ≤ maxBodyBytes ∧
    if n = 0 then text = ⟨none, none⟩ else request.body = text.parsed

/-! ### The checks -/

/-- A falsy value. -/
def Falsy (value : Option Json) : Prop := ∃ v, value = some v ∧ v.truthy = false

/-- A falsy value of another type. -/
def Stray {α : Type} (grammar : Option Json → List α → Prop) (value : Option Json) : Prop :=
  Falsy value ∧ ∀ items, ¬grammar value items

/-- What a field with this grammar is read as: a falsy value of another type is read as an empty one. -/
def ReadsAs {α : Type} (grammar : Option Json → List α → Prop) (value : Option Json) (items : List α) : Prop :=
  grammar value items ∨ Stray grammar value ∧ items = []

section Checks

variable {repr : PyStr → PyStr} {value : Option Json} {entries : List (PyStr × Json)} {tags : List (PyStr × PyStr)}
  {keys : List PyStr} {dims : Dims} {why : Rejection}

theorem entry_eq (entries : List (PyStr × Json)) (name : PyStr) : Json.entry entries name = (field entries name).getD .null :=
  rfl

theorem asString_eq_some_iff {v : Json} {s : PyStr} : v.asString = some s ↔ v = .string s := by
  cases v <;> simp [Json.asString]

theorem checkKey_ok_iff : checkKey (value.getD .null) = .ok dims ↔ HiveKey value dims := by
  constructor
  · intro h
    cases value with
    | none => cases h
    | some v =>
        cases v with
        | string key =>
            rw [Option.getD_some, checkKey] at h
            split at h
            · cases h
            · rename_i hne
              split at h
              · cases h
              · rename_i hparse
                split at h
                · cases h
                · rename_i htrip
                  cases h
                  exact HiveKey.string hne hparse (not_ne_iff.mp htrip)
        | _ => cases h
  · intro h
    cases h with
    | string hne hparse htrip =>
        rw [Option.getD_some, checkKey, if_neg hne, hparse]
        exact if_neg (not_ne_iff.mpr htrip)

theorem checkEntries_ok_iff : checkEntries repr entries = .ok tags ↔ entries = tags.map fun t => (t.1, .string t.2) := by
  induction entries generalizing tags with
  | nil =>
      cases tags with
      | nil => exact iff_of_true rfl rfl
      | cons t tags => exact iff_of_false (fun h => by cases h) (fun h => by cases h)
  | cons entry entries ih =>
      obtain ⟨k, v⟩ := entry
      rw [checkEntries]
      cases hv : v.asString with
      | none =>
          refine iff_of_false (fun h => by cases h) fun h => ?_
          cases tags with
          | nil => cases h
          | cons t tags =>
              obtain ⟨hentry, _⟩ := List.cons.inj h
              rw [asString_eq_some_iff.mpr (Prod.ext_iff.mp hentry).2] at hv
              cases hv
      | some s =>
          rw [asString_eq_some_iff.mp hv]
          cases tags with
          | nil =>
              refine iff_of_false (fun h => ?_) (fun h => by cases h)
              cases hrest : checkEntries repr entries with
              | error e => rw [hrest] at h; cases h
              | ok rest => rw [hrest] at h; cases h
          | cons t tags =>
              rw [List.map_cons, List.cons.injEq, ← ih]
              cases hrest : checkEntries repr entries with
              | error e => exact iff_of_false (fun h => by cases h) (fun h => by cases h.2)
              | ok rest =>
                  constructor
                  · intro h
                    cases h
                    exact ⟨rfl, rfl⟩
                  · rintro ⟨hentry, hok⟩
                    cases hok
                    cases hentry
                    rfl

theorem checkEntries_error (h : checkEntries repr entries = .error why) : ∃ error, why = .reply 400 error := by
  induction entries with
  | nil => cases h
  | cons entry entries ih =>
      rw [checkEntries] at h
      cases hv : entry.2.asString with
      | none =>
          rw [hv] at h
          cases h
          exact ⟨_, rfl⟩
      | some s =>
          rw [hv] at h
          cases hrest : checkEntries repr entries with
          | error e =>
              rw [hrest] at h
              cases h
              exact ih hrest
          | ok rest => rw [hrest] at h; cases h

/-- The strings of a list. -/
theorem strings_iff {items : List Json} :
    (items.all fun v => v.asString.isSome) = true ∧ items.filterMap Json.asString = keys ↔ items = keys.map .string := by
  constructor
  · rintro ⟨hall, rfl⟩
    induction items with
    | nil => rfl
    | cons v items ih =>
        rw [List.all_cons, Bool.and_eq_true] at hall
        obtain ⟨s, hs⟩ := Option.isSome_iff_exists.mp hall.1
        rw [List.filterMap_cons_some hs, List.map_cons, ← ih hall.2, ← asString_eq_some_iff.mp hs]
  · rintro rfl
    constructor
    · simp [Json.asString]
    · rw [List.filterMap_map]
      exact List.filterMap_some

/-- Nothing but an absent or null value and an object is in the grammar of `set_tags`. -/
theorem setTags_iff : SetTags value tags ↔ (value = none ∨ value = some .null) ∧ tags = [] ∨
    value = some (.object (tags.map fun t => (t.1, .string t.2))) := by
  constructor
  · intro h
    cases h with
    | absent => exact Or.inl ⟨Or.inl rfl, rfl⟩
    | null => exact Or.inl ⟨Or.inr rfl, rfl⟩
    | object tags => exact Or.inr rfl
  · rintro (⟨rfl | rfl, rfl⟩ | rfl)
    · exact SetTags.absent
    · exact SetTags.null
    · exact SetTags.object tags

theorem unsetKeys_iff : UnsetKeys value keys ↔ (value = none ∨ value = some .null) ∧ keys = [] ∨
    value = some (.array (keys.map .string)) := by
  constructor
  · intro h
    cases h with
    | absent => exact Or.inl ⟨Or.inl rfl, rfl⟩
    | null => exact Or.inl ⟨Or.inr rfl, rfl⟩
    | list keys => exact Or.inr rfl
  · rintro (⟨rfl | rfl, rfl⟩ | rfl)
    · exact UnsetKeys.absent
    · exact UnsetKeys.null
    · exact UnsetKeys.list keys

theorem readsAs_of_falsy {α : Type} {grammar : Option Json → List α → Prop} {items : List α} (habsent : grammar none [])
    (hempty : ∀ items, grammar value items → items = []) (h : (value.getD .null).truthy = false) :
    ReadsAs grammar value items ↔ items = [] := by
  constructor
  · intro hreads
    cases hreads with
    | inl hgrammar => exact hempty items hgrammar
    | inr hstray => exact hstray.2
  · rintro rfl
    by_cases hany : ∃ items, grammar value items
    · obtain ⟨items, hgrammar⟩ := hany
      have hnil := hempty items hgrammar
      subst hnil
      exact Or.inl hgrammar
    · cases value with
      | none => exact Or.inl habsent
      | some v => exact Or.inr ⟨⟨⟨v, rfl, h⟩, fun items hgrammar => hany ⟨items, hgrammar⟩⟩, rfl⟩

theorem readsAs_of_truthy {α : Type} {grammar : Option Json → List α → Prop} {items : List α}
    (h : (value.getD .null).truthy = true) : ReadsAs grammar value items ↔ grammar value items := by
  refine ⟨fun hreads => ?_, Or.inl⟩
  cases hreads with
  | inl hgrammar => exact hgrammar
  | inr hstray =>
      obtain ⟨⟨⟨v, rfl, hfalsy⟩, _⟩, _⟩ := hstray
      rw [Option.getD_some, hfalsy] at h
      cases h

theorem checkSetTags_ok_iff : checkSetTags repr (value.getD .null) = .ok tags ↔ ReadsAs SetTags value tags := by
  unfold checkSetTags
  cases htruthy : (value.getD .null).truthy with
  | false =>
      rw [if_neg Bool.false_ne_true, readsAs_of_falsy SetTags.absent (fun tags htags => ?_) htruthy]
      · exact ⟨fun h => (Except.ok.inj h).symm, fun h => by rw [h]⟩
      · cases htags with
        | absent => rfl
        | null => rfl
        | object tags => simpa [Json.truthy] using htruthy
  | true =>
      rw [if_pos rfl, readsAs_of_truthy htruthy, setTags_iff]
      cases value with
      | none => cases htruthy
      | some v =>
          cases v with
          | null => cases htruthy
          | object entries => simp [checkEntries_ok_iff]
          | _ => simp

theorem checkUnsetKeys_ok_iff : checkUnsetKeys (value.getD .null) = .ok keys ↔ ReadsAs UnsetKeys value keys := by
  unfold checkUnsetKeys
  cases htruthy : (value.getD .null).truthy with
  | false =>
      rw [if_neg Bool.false_ne_true, readsAs_of_falsy UnsetKeys.absent (fun keys hkeys => ?_) htruthy]
      · exact ⟨fun h => (Except.ok.inj h).symm, fun h => by rw [h]⟩
      · cases hkeys with
        | absent => rfl
        | null => rfl
        | list keys => simpa [Json.truthy] using htruthy
  | true =>
      rw [if_pos rfl, readsAs_of_truthy htruthy, unsetKeys_iff]
      cases value with
      | none => cases htruthy
      | some v =>
          cases v with
          | null => cases htruthy
          | array items =>
              have hlist : (some (Json.array items) = none ∨ some (Json.array items) = some Json.null) ∧ keys = [] ∨
                  some (Json.array items) = some (Json.array (keys.map .string)) ↔ items = keys.map .string := by simp
              rw [hlist, ← strings_iff]
              dsimp only [Option.getD_some]
              split_ifs with hall
              · simp [hall]
              · simp [hall]
          | _ => simp

theorem checkKey_error {v : Json} (h : checkKey v = .error why) : ∃ error, why = .reply 400 error := by
  unfold checkKey at h
  split at h
  · split_ifs at h
    · cases h
      exact ⟨_, rfl⟩
    · split at h
      · cases h
        exact ⟨_, rfl⟩
      · split_ifs at h
        cases h
        exact ⟨_, rfl⟩
  · cases h
    exact ⟨_, rfl⟩

theorem checkSetTags_error {v : Json} (h : checkSetTags repr v = .error why) : ∃ error, why = .reply 400 error := by
  unfold checkSetTags at h
  split_ifs at h
  split at h
  · exact checkEntries_error h
  · cases h
    exact ⟨_, rfl⟩

theorem checkUnsetKeys_error {v : Json} (h : checkUnsetKeys v = .error why) : ∃ error, why = .reply 400 error := by
  unfold checkUnsetKeys at h
  split_ifs at h
  split at h
  · split_ifs at h
    cases h
    exact ⟨_, rfl⟩
  · cases h
    exact ⟨_, rfl⟩

/-- The stray values of `set_tags`. -/
theorem stray_setTags_iff : Stray SetTags value ↔ value = some (.bool false) ∨ value = some (.number true) ∨
    value = some (.string []) ∨ value = some (.array []) := by
  constructor
  · rintro ⟨⟨v, rfl, hfalsy⟩, hnot⟩
    cases v with
    | null => exact absurd SetTags.null (hnot [])
    | object entries =>
        have hnil : entries = [] := by simpa [Json.truthy] using hfalsy
        subst hnil
        exact absurd (SetTags.object []) (hnot [])
    | _ => simpa [Json.truthy] using hfalsy
  · rintro (rfl | rfl | rfl | rfl)
    all_goals exact ⟨⟨_, rfl, rfl⟩, fun items h => by cases h⟩

/-- The stray values of `unset_keys`. -/
theorem stray_unsetKeys_iff : Stray UnsetKeys value ↔ value = some (.bool false) ∨ value = some (.number true) ∨
    value = some (.string []) ∨ value = some (.object []) := by
  constructor
  · rintro ⟨⟨v, rfl, hfalsy⟩, hnot⟩
    cases v with
    | null => exact absurd UnsetKeys.null (hnot [])
    | array items =>
        have hnil : items = [] := by simpa [Json.truthy] using hfalsy
        subst hnil
        exact absurd (UnsetKeys.list []) (hnot [])
    | _ => simpa [Json.truthy] using hfalsy
  · rintro (rfl | rfl | rfl | rfl)
    all_goals exact ⟨⟨_, rfl, rfl⟩, fun items h => by cases h⟩

/-- The fields are read as this edit. -/
structure Reads (entries : List (PyStr × Json)) (edit : Edit) : Prop where
  key : HiveKey (field entries (py "key")) edit.dims
  setTags : ReadsAs SetTags (field entries (py "set_tags")) edit.setTags
  unsetKeys : ReadsAs UnsetKeys (field entries (py "unset_keys")) edit.unsetKeys

/-- The checks of the fields of a body. -/
def checkFields (repr : PyStr → PyStr) (entries : List (PyStr × Json)) : Except Rejection Edit := do
  let dims ← checkKey (Json.entry entries (py "key"))
  let setTags ← checkSetTags repr (Json.entry entries (py "set_tags"))
  let unsetKeys ← checkUnsetKeys (Json.entry entries (py "unset_keys"))
  pure ⟨dims, setTags, unsetKeys⟩

theorem checkFields_ok_iff {edit : Edit} : checkFields repr entries = .ok edit ↔ Reads entries edit := by
  have hkey : ∀ dims, checkKey ((field entries (py "key")).getD .null) = .ok dims ↔ _ := fun _ => checkKey_ok_iff
  have htags : ∀ tags, checkSetTags repr ((field entries (py "set_tags")).getD .null) = .ok tags ↔ _ :=
    fun _ => checkSetTags_ok_iff
  have hkeys : ∀ keys, checkUnsetKeys ((field entries (py "unset_keys")).getD .null) = .ok keys ↔ _ :=
    fun _ => checkUnsetKeys_ok_iff
  rw [checkFields, entry_eq, entry_eq, entry_eq]
  constructor
  · intro h
    cases hdims : checkKey ((field entries (py "key")).getD .null) with
    | error e => rw [hdims] at h; cases h
    | ok dims =>
        cases hset : checkSetTags repr ((field entries (py "set_tags")).getD .null) with
        | error e => rw [hdims, hset] at h; cases h
        | ok tags =>
            cases hunset : checkUnsetKeys ((field entries (py "unset_keys")).getD .null) with
            | error e => rw [hdims, hset, hunset] at h; cases h
            | ok keys =>
                rw [hdims, hset, hunset] at h
                cases h
                exact ⟨(hkey _).mp hdims, (htags _).mp hset, (hkeys _).mp hunset⟩
  · intro h
    rw [(hkey _).mpr h.key, (htags _).mpr h.setTags, (hkeys _).mpr h.unsetKeys]
    rfl

theorem checkFields_error (h : checkFields repr entries = .error why) : ∃ error, why = .reply 400 error := by
  rw [checkFields] at h
  cases hdims : checkKey (Json.entry entries (py "key")) with
  | error e =>
      rw [hdims] at h
      cases h
      exact checkKey_error hdims
  | ok dims =>
      cases hset : checkSetTags repr (Json.entry entries (py "set_tags")) with
      | error e =>
          rw [hdims, hset] at h
          cases h
          exact checkSetTags_error hset
      | ok tags =>
          cases hunset : checkUnsetKeys (Json.entry entries (py "unset_keys")) with
          | error e =>
              rw [hdims, hset, hunset] at h
              cases h
              exact checkUnsetKeys_error hunset
          | ok keys => rw [hdims, hset, hunset] at h; cases h

variable {request : Request} {text : Text}

/-- The checks of a body that is posted. -/
theorem checkRequest_posts (hp : Posts request text) : checkRequest repr request =
    match text.parsed with
    | .error _ => .error .dropped
    | .ok none => .error (.reply 400 (py "malformed JSON body"))
    | .ok (some (.object entries)) => checkFields repr entries
    | .ok (some _) => .error (.reply 400 (py "body must be a JSON object")) := by
  obtain ⟨n, hlength, hlow, hhigh, hbody⟩ := hp.length
  have hread : (if n = 0 then .ok none else request.body) = text.parsed := by
    split_ifs at hbody ⊢ with hn
    · rw [hbody]
      rfl
    · exact hbody
  have hcheck : checkLength request.contentLength = .ok n := by
    rw [hlength, checkLength, if_neg (by omega), if_neg (by omega)]
  rw [checkRequest, if_neg (not_ne_iff.mpr hp.path), hcheck]
  simp only [checkBody, hread, checkFields, bind, Except.bind]
  cases text.parsed with
  | error e => rfl
  | ok value =>
      cases value with
      | none => rfl
      | some v => cases v <;> rfl

/-- **What the checks accept of a body.** -/
theorem checkRequest_ok_iff (hp : Posts request text) {edit : Edit} : checkRequest repr request = .ok edit ↔
    text.raises = none ∧ ∃ entries, text.value = some (.object entries) ∧ Reads entries edit := by
  rw [checkRequest_posts hp, Text.parsed]
  cases text.raises with
  | some e => exact iff_of_false (fun h => by cases h) fun h => by cases h.1
  | none =>
      cases text.value with
      | none => exact iff_of_false (fun h => by cases h) fun h => by obtain ⟨_, _, h, _⟩ := h; cases h
      | some v =>
          cases v with
          | object entries => simp [checkFields_ok_iff]
          | _ => exact iff_of_false (fun h => by cases h) fun h => by obtain ⟨_, _, h, _⟩ := h; cases h

/-- What the checks refuse is answered with a 400, unless `json.loads` raised. -/
theorem checkRequest_error (hp : Posts request text) (h : checkRequest repr request = .error why) :
    (∃ error, why = .reply 400 error) ∨ text.raises.isSome = true ∧ why = .dropped := by
  rw [checkRequest_posts hp, Text.parsed] at h
  cases hraises : text.raises with
  | some e =>
      rw [hraises] at h
      cases h
      exact Or.inr ⟨rfl, rfl⟩
  | none =>
      rw [hraises] at h
      refine Or.inl ?_
      cases hvalue : text.value with
      | none =>
          rw [hvalue] at h
          cases h
          exact ⟨_, rfl⟩
      | some v =>
          rw [hvalue] at h
          cases v with
          | object entries => exact checkFields_error h
          | _ =>
              cases h
              exact ⟨_, rfl⟩

end Checks

/-- The key of a body is good, and its other fields are in the grammar but for stray values, of which there is one. -/
def Slips (entries : List (PyStr × Json)) : Prop :=
  (∃ dims, HiveKey (field entries (py "key")) dims) ∧
    (Stray SetTags (field entries (py "set_tags")) ∧ (∃ keys, ReadsAs UnsetKeys (field entries (py "unset_keys")) keys) ∨
      (∃ tags, SetTags (field entries (py "set_tags")) tags) ∧ Stray UnsetKeys (field entries (py "unset_keys")))

/-- `json.loads` does not raise what `do_POST` does not expect, and no stray value decides. -/
structure Regular (text : Text) : Prop where
  parses : text.raises = none
  noSlip : ∀ entries, text.value = some (.object entries) → ¬Slips entries

section Bodies

variable {entries : List (PyStr × Json)} {edit : Edit} {request : Request} {text : Text} {repr : PyStr → PyStr}

theorem Asked.reads (h : Asked entries edit) : Reads entries edit := ⟨h.key, Or.inl h.setTags, Or.inl h.unsetKeys⟩

/-- **What is read without a slip is asked for.** -/
theorem Reads.asked (h : Reads entries edit) (hslips : ¬Slips entries) : Asked entries edit := by
  obtain ⟨hkey, htags, hkeys⟩ := h
  cases htags with
  | inr hstray => exact absurd ⟨⟨_, hkey⟩, Or.inl ⟨hstray.1, _, hkeys⟩⟩ hslips
  | inl htags =>
      cases hkeys with
      | inr hstray => exact absurd ⟨⟨_, hkey⟩, Or.inr ⟨⟨_, htags⟩, hstray.1⟩⟩ hslips
      | inl hkeys => exact ⟨hkey, htags, hkeys⟩

/-- A slip is read as an edit that nothing asked for. -/
theorem Slips.reads (h : Slips entries) : (∃ edit, Reads entries edit) ∧ ∀ edit, ¬Asked entries edit := by
  obtain ⟨⟨dims, hkey⟩, ⟨hstray, keys, hkeys⟩ | ⟨⟨tags, htags⟩, hstray⟩⟩ := h
  · exact ⟨⟨⟨dims, [], keys⟩, hkey, Or.inr ⟨hstray, rfl⟩, hkeys⟩, fun edit hasked => hstray.2 _ hasked.setTags⟩
  · exact ⟨⟨⟨dims, tags, []⟩, hkey, Or.inl htags, Or.inr ⟨hstray, rfl⟩⟩, fun edit hasked => hstray.2 _ hasked.unsetKeys⟩

/-- **The checks accept the grammar** of a regular body. -/
theorem Regular.checkRequest_ok_iff (hr : Regular text) (hp : Posts request text) :
    checkRequest repr request = .ok edit ↔ Grammatical text edit := by
  rw [TagIpc.checkRequest_ok_iff hp]
  constructor
  · rintro ⟨_, entries, hvalue, hreads⟩
    exact ⟨entries, hvalue, hreads.asked (hr.noSlip entries hvalue)⟩
  · rintro ⟨entries, hvalue, hasked⟩
    exact ⟨hr.parses, entries, hvalue, hasked.reads⟩

/-- What they refuse of one gets a 400. -/
theorem Regular.checkRequest_error (hr : Regular text) (repr : PyStr → PyStr) (hp : Posts request text)
    (hnot : ∀ edit, ¬Grammatical text edit) : ∃ error, checkRequest repr request = .error (.reply 400 error) := by
  cases hcheck : checkRequest repr request with
  | ok edit => exact absurd ((hr.checkRequest_ok_iff hp).mp hcheck) (hnot edit)
  | error why =>
      cases TagIpc.checkRequest_error hp hcheck with
      | inl hreply =>
          obtain ⟨error, rfl⟩ := hreply
          exact ⟨error, rfl⟩
      | inr hdropped =>
          rw [hr.parses] at hdropped
          cases hdropped.1

end Bodies

/-! ### Runs -/

/-- What the checks of a request say about an answer to it. -/
def Answer.Judged (cfg : Config) (request : Request) : Answer → Prop
  | .rejected why => checkRequest cfg.repr request = .error why
  | _ => ∃ edit, checkRequest cfg.repr request = .ok edit

/-- A handler is where the checks of its request sent it. -/
def Handler.Judged (cfg : Config) (h : Handler) : Prop :=
  match h.phase with
  | .reading => True
  | .admitted edit => checkRequest cfg.repr h.request = .ok edit
  | .waiting _ _ => ∃ edit, checkRequest cfg.repr h.request = .ok edit
  | .answered answer => answer.Judged cfg h.request
  | .finished answer => answer.Judged cfg h.request

/-- Every handler is. -/
def AllJudged (cfg : Config) (s : EditState) : Prop := ∀ id h, s.handlers id = some h → h.Judged cfg

section Runs

variable {env : Env} {cfg : Config} {s s' : EditState} {w : World} {text : Text} {id : ℕ} {h h' : Handler}

/-- One handler moved. -/
theorem AllJudged.update (hall : AllJudged cfg s) (hs : s'.handlers = Function.update s.handlers id (some h'))
    (hnew : h'.Judged cfg) : AllJudged cfg s' := by
  intro i hi h
  rw [hs] at h
  by_cases heq : i = id
  · rw [heq, Function.update_self] at h
    cases h
    exact hnew
  · rw [Function.update_of_ne heq] at h
    exact hall i hi h

theorem EditStep.judged (hs : EditStep env cfg s s') (hall : AllJudged cfg s) : AllJudged cfg s' := by
  have hphase : ∀ {id h}, s.handlers id = some h → h.Judged cfg := fun hid => hall _ _ hid
  cases hs with
  | connect id request hid => exact hall.update rfl trivial
  | reject id hid hp hc => exact hall.update rfl hc
  | busy id hid hp hc hn => exact hall.update rfl ⟨_, hc⟩
  | acquire id hid hp hc hn => exact hall.update rfl hc
  | enqueue id hid hp =>
      have hjudged := hphase hid
      rw [Handler.Judged, hp] at hjudged
      exact hall.update rfl ⟨_, hjudged⟩
  | wake id hid hp he =>
      have hjudged := hphase hid
      rw [Handler.Judged, hp] at hjudged
      exact hall.update rfl hjudged
  | giveUp id hid hp he ht =>
      have hjudged := hphase hid
      rw [Handler.Judged, hp] at hjudged
      exact hall.update rfl hjudged
  | release id hid hp =>
      have hjudged := hphase hid
      rw [Handler.Judged, hp] at hjudged
      exact hall.update rfl hjudged
  | setEvent hw hid =>
      have hjudged := hphase hid
      exact hall.update rfl hjudged
  | post item hi => exact hall
  | take hw hq => exact hall
  | stop hw => exact hall
  | runEvent source workers hw hi => exact hall
  | runEdit source workers hw hread hrun => exact hall
  | advance n => exact hall

/-- **Every handler of a run is where the checks of its request sent it.** -/
theorem Steps.judged (hs : Steps env cfg (EditState.initial cfg w) s) : AllJudged cfg s := by
  induction hs with
  | refl => exact fun id h hid => by cases hid
  | tail _ hstep ih => exact hstep.judged ih

theorem Handler.Judged.answer (hj : h.Judged cfg) {answer : Answer} (ha : h.answer = some answer) :
    answer.Judged cfg h.request := by
  rw [Handler.Judged] at hj
  rw [Handler.answer] at ha
  split at ha
  · rename_i hphase
    rw [hphase] at hj
    cases ha
    exact hj
  · rename_i hphase
    rw [hphase] at hj
    cases ha
    exact hj
  · cases ha

/-- What was enqueued for a request is what it asks for. -/
theorem Life.asks {o : Option Handler} {place : Place} {log : List Event} (hl : Life cfg id o place log)
    {item : TagEditItem} (hmem : Event.enqueued id item ∈ log) : ∃ h, o = some h ∧ Asks cfg h.request item := by
  cases hl with
  | waiting hp he hi =>
      obtain rfl : item = _ := by simpa using hmem
      exact ⟨_, rfl, hi⟩
  | gone ha he hi =>
      obtain rfl : item = _ := by simpa using hmem
      exact ⟨_, rfl, hi⟩
  | waitingRan hp he hr =>
      obtain rfl : item = _ := by simpa using hmem
      exact ⟨_, rfl, hr.asked⟩
  | waitingSet hp he hr =>
      obtain rfl : item = _ := by simpa using hmem
      exact ⟨_, rfl, hr.asked⟩
  | served ha hr =>
      obtain rfl : item = _ := by simpa using hmem
      exact ⟨_, rfl, hr.asked⟩
  | goneRan ha he hr hlog =>
      obtain rfl : item = _ := by rcases hlog with rfl | rfl <;> simpa using hmem
      exact ⟨_, rfl, hr.asked⟩
  | goneSet ha hr hlog =>
      obtain rfl : item = _ := by rcases hlog with rfl | rfl <;> simpa using hmem
      exact ⟨_, rfl, hr.asked⟩
  | _ => simp at hmem

theorem Steps.asks (hs : Steps env cfg (EditState.initial cfg w) s) (hid : s.handlers id = some h) {item : TagEditItem}
    (hmem : Event.enqueued id item ∈ s.log) : Asks cfg h.request item := by
  obtain ⟨place, _, hlife⟩ := Steps.tracked hs (accounted_initial cfg w) (tracked_initial cfg w) id
  obtain ⟨h', hh', hasks⟩ := hlife.asks (mem_trail_enqueued.mpr hmem)
  rw [hid] at hh'
  cases hh'
  exact hasks

/-- **The endpoint accepts exactly the grammar**, in every run in which a handler got this body. -/
structure Exact (env : Env) (cfg : Config) (w : World) (text : Text) : Prop where
  /-- What is enqueued is what the body asks for. -/
  enqueues : ∀ {s id h item}, Steps env cfg (EditState.initial cfg w) s → s.handlers id = some h → Posts h.request text →
    Event.enqueued id item ∈ s.log → ∃ edit deadline, Grammatical text edit ∧ item = edit.item deadline
  /-- A body in the grammar is enqueued, if a permit is free. -/
  accepts : ∀ {s id h edit n}, Steps env cfg (EditState.initial cfg w) s → s.handlers id = some h → Posts h.request text →
    Grammatical text edit → h.phase = .reading → s.permits = n + 1 →
    ∃ s' deadline, Steps env cfg s s' ∧ Event.enqueued id (edit.item deadline) ∈ s'.log
  /-- It is not refused. -/
  serves : ∀ {s id h edit why}, Steps env cfg (EditState.initial cfg w) s → s.handlers id = some h → Posts h.request text →
    Grammatical text edit → h.answer ≠ some (.rejected why)
  /-- Every other body gets a 400. -/
  refuses : ∀ {s id h}, Steps env cfg (EditState.initial cfg w) s → s.handlers id = some h → Posts h.request text →
    (∀ edit, ¬Grammatical text edit) → h.phase = .reading →
    ∃ error, EditStep env cfg s (s.refuses id h (.rejected (.reply 400 error)))
  /-- It gets no other answer. -/
  rejects : ∀ {s id h answer}, Steps env cfg (EditState.initial cfg w) s → s.handlers id = some h → Posts h.request text →
    (∀ edit, ¬Grammatical text edit) → h.answer = some answer → ∃ error, answer = .rejected (.reply 400 error)

/-- **The endpoint is exact on a regular body.** -/
theorem Regular.exact (hr : Regular text) : Exact env cfg w text where
  enqueues := by
    intro s id h item hs hid hp hmem
    obtain ⟨edit, deadline, hcheck, hitem⟩ := hs.asks hid hmem
    exact ⟨edit, deadline, (hr.checkRequest_ok_iff hp).mp hcheck, hitem⟩
  accepts := by
    intro s id h edit n hs hid hp hg hphase hn
    have hacquire : EditStep env cfg s (s.admits id h edit n) :=
      EditStep.acquire s id hid hphase ((hr.checkRequest_ok_iff hp).mpr hg) hn
    have henqueue : EditStep env cfg (s.admits id h edit n) _ :=
      EditStep.enqueue _ id (h := { h with phase := .admitted edit }) (Function.update_self ..) rfl
    exact ⟨_, _, (Relation.ReflTransGen.single hacquire).tail henqueue, List.mem_cons_self⟩
  serves := by
    intro s id h edit why hs hid hp hg ha
    have hjudged : checkRequest cfg.repr h.request = .error why := (hs.judged id h hid).answer ha
    rw [(hr.checkRequest_ok_iff hp).mpr hg] at hjudged
    cases hjudged
  refuses := by
    intro s id h hs hid hp hnot hphase
    obtain ⟨error, hcheck⟩ := hr.checkRequest_error cfg.repr hp hnot
    exact ⟨error, EditStep.reject s id hid hphase hcheck⟩
  rejects := by
    intro s id h answer hs hid hp hnot ha
    obtain ⟨error, hcheck⟩ := hr.checkRequest_error cfg.repr hp hnot
    have hjudged := (hs.judged id h hid).answer ha
    cases answer with
    | rejected why =>
        have hwhy : checkRequest cfg.repr h.request = .error why := hjudged
        rw [hcheck] at hwhy
        cases hwhy
        exact ⟨error, rfl⟩
    | _ =>
        obtain ⟨edit, hok⟩ := hjudged
        rw [hcheck] at hok
        cases hok

/-- A request that posts the body. -/
def Text.request (text : Text) : Request := ⟨py "/update_tags", .value 1, text.parsed⟩

theorem Text.posts (text : Text) : Posts text.request text :=
  ⟨rfl, 1, rfl, by decide, by decide, rfl⟩

/-- **It is exact on no other.** -/
theorem Exact.regular (he : Exact env cfg w text) : Regular text := by
  have hconnect : EditStep env cfg (EditState.initial cfg w)
      ((EditState.initial cfg w).setHandler 0 ⟨text.request, .reading, none⟩) :=
    EditStep.connect _ 0 text.request rfl
  have hid : ((EditState.initial cfg w).setHandler 0 ⟨text.request, .reading, none⟩).handlers 0 =
      some ⟨text.request, .reading, none⟩ := by
    rw [EditState.setHandler]
    exact Function.update_self 0 _ (EditState.initial cfg w).handlers
  have hparses : text.raises = none := by
    cases hraises : text.raises with
    | none => rfl
    | some e =>
        have hcheck : checkRequest cfg.repr text.request = .error .dropped := by
          rw [checkRequest_posts text.posts, Text.parsed, hraises]
        have hrun := (Relation.ReflTransGen.single hconnect).tail (EditStep.reject _ 0 hid rfl hcheck)
        by_cases hany : ∃ edit, Grammatical text edit
        · obtain ⟨edit, hg⟩ := hany
          exact absurd rfl (he.serves hrun (Function.update_self ..) text.posts hg)
        · obtain ⟨error, hreply⟩ := he.rejects hrun (Function.update_self ..) text.posts
            (fun edit hg => hany ⟨edit, hg⟩) rfl
          cases hreply
  refine ⟨hparses, fun entries hvalue hslips => ?_⟩
  obtain ⟨⟨edit, hreads⟩, hnot⟩ := hslips.reads
  have hnever : ∀ edit, ¬Grammatical text edit := by
    rintro edit ⟨entries', hvalue', hasked⟩
    rw [hvalue] at hvalue'
    cases hvalue'
    exact hnot edit hasked
  have hcheck : checkRequest cfg.repr text.request = .ok edit :=
    (checkRequest_ok_iff text.posts).mpr ⟨hparses, entries, hvalue, hreads⟩
  cases hn : cfg.maxPending with
  | zero =>
      have hrun := (Relation.ReflTransGen.single hconnect).tail (EditStep.busy _ 0 hid rfl hcheck hn)
      obtain ⟨error, hreply⟩ := he.rejects hrun (Function.update_self ..) text.posts hnever rfl
      cases hreply
  | succ n =>
      have hfree : (EditState.initial cfg w).handlers 0 = none := rfl
      obtain ⟨h1, h2, h3⟩ := step_submits env cfg hfree hcheck hn
      obtain ⟨edit', _, hg, _⟩ := he.enqueues (((Relation.ReflTransGen.single h1).tail h2).tail h3)
        (Function.update_self ..) text.posts List.mem_cons_self
      exact hnever edit' hg

/-- **The endpoint accepts exactly its request grammar on the regular bodies, and on no others.** -/
theorem exact_iff (env : Env) (cfg : Config) (w : World) (text : Text) : Exact env cfg w text ↔ Regular text :=
  ⟨Exact.regular, Regular.exact⟩

end Runs

/-- A request whose `set_tags` is `false`. -/
def falseSetTags : Text := ⟨some (.object [(py "key", .string sampleKey), (py "set_tags", .bool false)]), none⟩

theorem falseSetTags_not_exact : ¬Exact oneTopicEnv defaultConfig afterOneCatalog falseSetTags := by
  intro he
  refine he.regular.noSlip _ rfl ⟨⟨sampleDims, HiveKey.string ?_ ?_ ?_⟩, Or.inl ⟨?_, [], Or.inl UnsetKeys.absent⟩⟩
  · decide
  · decide +kernel
  · decide +kernel
  · exact stray_setTags_iff.mpr (Or.inl rfl)

end McapCatalog.TagIpc
