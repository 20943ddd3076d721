import McapCatalog.Backends
import McapCatalog.Builder

/-!
# The grammar of trusted keys

`resolve_key_dims` over a source whose keys are authoritative: a backtracking match, whose `$` accepts a final newline too,
and the comparison with the rebuilt key that makes up for it.

* `WellFormed` — the six fields of a key of the template, none of them with a slash;
* `wellFormed_iff_fits`, `rebuildHiveKey_inj` — the fields that can be captured, and that a key has one reading;
* `resolveKeyDims_grammar` — **the keys that are trusted, with their dimensions**.
-/

namespace McapCatalog.Builder

open McapCatalog.PyText McapCatalog.PyError McapCatalog.KeyParse McapCatalog.GreedyTemplate McapCatalog.Storage
open McapCatalog.Connection McapCatalog.CatalogDb McapCatalog.Tables
open McapCatalog.SurvivingState McapCatalog.SurvivingState.Comp

/-- A non-empty field without a slash. -/
def IsField (field : PyStr) : Prop := field ≠ [] ∧ cp '/' ∉ field

/-- A file name: it ends in `.mcap`, with something before it, and has no slash. -/
def IsFilename (filename : PyStr) : Prop :=
  5 < filename.length ∧ endsWith filename (py ".mcap") = true ∧ cp '/' ∉ filename

/-- The fields of a key of the template. -/
structure WellFormed (dims : Dims) : Prop where
  customer : IsField dims.customer
  site : IsField dims.site
  robot : IsField dims.robot
  source : IsField dims.source
  date : IsField dims.date
  filename : IsFilename dims.filename

theorem notSlash_iff (s : PyStr) : (∀ c ∈ s, notSlash c = true) ↔ cp '/' ∉ s := by
  constructor
  · intro hall hmem
    exact absurd (hall _ hmem) (by decide)
  · intro hnot c hc
    refine decide_eq_true fun heq => hnot ?_
    rw [← heq]
    exact hc

theorem isField_iff (field : PyStr) :
    IsField field ↔ ∃ body, body ≠ [] ∧ (∀ c ∈ body, notSlash c = true) ∧ field = body ++ [] := by
  constructor
  · intro h
    exact ⟨field, h.1, (notSlash_iff field).mpr h.2, (List.append_nil field).symm⟩
  · rintro ⟨body, hne, hok, rfl⟩
    rw [List.append_nil]
    exact ⟨hne, (notSlash_iff body).mp hok⟩

theorem isFilename_iff (filename : PyStr) :
    IsFilename filename ↔ ∃ body, body ≠ [] ∧ (∀ c ∈ body, notSlash c = true) ∧ filename = body ++ py ".mcap" := by
  have hsuffix : cp '/' ∉ py ".mcap" := by decide
  constructor
  · rintro ⟨hlong, hends, hslash⟩
    obtain ⟨body, rfl⟩ := List.isSuffixOf_iff_suffix.mp hends
    refine ⟨body, ?_, (notSlash_iff body).mpr fun hmem => hslash (List.mem_append_left _ hmem), rfl⟩
    rintro rfl
    exact absurd hlong (by decide)
  · rintro ⟨body, hne, hok, rfl⟩
    refine ⟨?_, List.isSuffixOf_iff_suffix.mpr (List.suffix_append _ _), fun hmem => ?_⟩
    · have hpos := List.length_pos_iff.mpr hne
      have hfive : (py ".mcap").length = 5 := rfl
      rw [List.length_append]
      omega
    · cases List.mem_append.mp hmem with
      | inl hbody => exact (notSlash_iff body).mp hok hbody
      | inr hends => exact hsuffix hends

/-- **The captures of `HIVE_RE`.** -/
theorem wellFormed_iff_fits (dims : Dims) :
    WellFormed dims ↔ Fits hiveRe [dims.customer, dims.site, dims.robot, dims.source, dims.date, dims.filename] := by
  simp only [hiveRe, Fits, ← isField_iff, ← isFilename_iff, and_true]
  exact ⟨fun h => ⟨h.customer, h.site, h.robot, h.source, h.date, h.filename⟩,
    fun h => ⟨h.1, h.2.1, h.2.2.1, h.2.2.2.1, h.2.2.2.2.1, h.2.2.2.2.2⟩⟩

theorem render_hiveRe (dims : Dims) :
    render hiveRe [dims.customer, dims.site, dims.robot, dims.source, dims.date, dims.filename] = rebuildHiveKey dims := by
  simp only [hiveRe, render, rebuildHiveKey, List.append_nil]

/-- A parse captures well-formed fields. -/
theorem wellFormed_of_parse {key : PyStr} {dims : Dims} (h : parseHiveKey key = some dims) : WellFormed dims := by
  rw [parseHiveKey] at h
  split at h
  · rename_i customer site robot source date filename hrun
    cases h
    exact (wellFormed_iff_fits _).mpr (run_fits _ _ _ _ hrun)
  · cases h

/-! ### One reading -/

/-- What stands before the first slash is determined. -/
theorem slash_inj {a b s t : PyStr} (ha : cp '/' ∉ a) (hb : cp '/' ∉ b) (h : a ++ cp '/' :: s = b ++ cp '/' :: t) :
    a = b ∧ s = t := by
  induction a generalizing b with
  | nil =>
      cases b with
      | nil => exact ⟨rfl, (List.cons.inj h).2⟩
      | cons c b =>
          rw [List.nil_append, List.cons_append] at h
          exact absurd (List.mem_cons.mpr (Or.inl (List.cons.inj h).1)) hb
  | cons c a ih =>
      cases b with
      | nil =>
          rw [List.nil_append, List.cons_append] at h
          exact absurd (List.mem_cons.mpr (Or.inl (List.cons.inj h).1.symm)) ha
      | cons c' b =>
          obtain ⟨hc, hrest⟩ := List.cons.inj h
          obtain ⟨hab, hst⟩ := ih (fun hmem => ha (List.mem_cons_of_mem _ hmem)) (fun hmem => hb (List.mem_cons_of_mem _ hmem)) hrest
          exact ⟨by rw [hc, hab], hst⟩

/-- A field up to a separator that begins with a slash. -/
theorem field_inj {a b s t rest : PyStr} (ha : IsField a) (hb : IsField b)
    (h : a ++ (cp '/' :: rest ++ s) = b ++ (cp '/' :: rest ++ t)) : a = b ∧ s = t := by
  obtain ⟨hab, hst⟩ := slash_inj ha.2 hb.2 h
  exact ⟨hab, List.append_cancel_left hst⟩

/-- No file name goes on after `.mcap` with a newline and ends there. -/
theorem filename_inj {a b tail : PyStr} (hb : IsFilename b) (htail : atDollar tail = true) (h : a ++ tail = b) :
    a = b ∧ tail = [] := by
  rw [atDollar, decide_eq_true_iff] at htail
  cases htail with
  | inl hnil =>
      rw [hnil, List.append_nil] at h
      exact ⟨h, hnil⟩
  | inr hnewline =>
      obtain ⟨body, _, _, hbody⟩ := (isFilename_iff b).mp hb
      have hlast := congrArg List.getLast? h
      rw [hnewline, hbody, List.getLast?_append_of_ne_nil _ (by decide), List.getLast?_append_of_ne_nil _ (by decide)] at hlast
      exact absurd hlast (by decide)

/-- **A key has one reading**, also up to the newline that `$` accepts. -/
theorem rebuildHiveKey_append_inj {dims dims' : Dims} (h : WellFormed dims) (h' : WellFormed dims') {tail : PyStr}
    (htail : atDollar tail = true) (heq : rebuildHiveKey dims ++ tail = rebuildHiveKey dims') : dims = dims' ∧ tail = [] := by
  simp only [rebuildHiveKey, List.append_assoc] at heq
  obtain ⟨hcustomer, heq⟩ := field_inj h.customer h'.customer (List.append_cancel_left heq)
  obtain ⟨hsite, heq⟩ := field_inj h.site h'.site heq
  obtain ⟨hrobot, heq⟩ := field_inj h.robot h'.robot heq
  obtain ⟨hsource, heq⟩ := field_inj h.source h'.source heq
  obtain ⟨hdate, heq⟩ := field_inj h.date h'.date heq
  obtain ⟨hfilename, hnil⟩ := filename_inj h'.filename htail heq
  cases dims
  cases dims'
  simp only at hcustomer hsite hrobot hsource hdate hfilename
  rw [hcustomer, hsite, hrobot, hsource, hdate, hfilename]
  exact ⟨rfl, hnil⟩

theorem rebuildHiveKey_inj {dims dims' : Dims} (h : WellFormed dims) (h' : WellFormed dims')
    (heq : rebuildHiveKey dims = rebuildHiveKey dims') : dims = dims' := by
  rw [← List.append_nil (rebuildHiveKey dims)] at heq
  exact (rebuildHiveKey_append_inj h h' (by decide) heq).1

theorem lstrip_rebuildHiveKey (dims : Dims) : lstrip (rebuildHiveKey dims) (cp '/') = rebuildHiveKey dims :=
  lstrip_cons_of_ne (by decide) _

/-- **Every well-formed key parses**, to its fields. -/
theorem parseHiveKey_of_rebuilt {key : PyStr} {dims : Dims} (h : WellFormed dims)
    (hkey : lstrip key (cp '/') = rebuildHiveKey dims) : parseHiveKey key = some dims := by
  have hmatch := run_complete atDollar hiveRe _ [] ((wellFormed_iff_fits dims).mp h) (by decide)
  rw [render_hiveRe, List.append_nil, ← hkey] at hmatch
  obtain ⟨caps, hrun⟩ := Option.isSome_iff_exists.mp hmatch
  obtain ⟨dims', hparse⟩ : ∃ dims', parseHiveKey key = some dims' := by
    obtain ⟨hlen, _⟩ := run_render _ _ _ _ hrun
    rw [parseHiveKey, hrun]
    match caps, hlen with
    | [_, _, _, _, _, _], _ => exact ⟨_, rfl⟩
  obtain ⟨tail, htail, hrebuilt⟩ := parseHiveKey_eq_some hparse
  obtain ⟨hdims, _⟩ := rebuildHiveKey_append_inj (wellFormed_of_parse hparse) h htail (hrebuilt.symm.trans hkey)
  rw [hparse, hdims]

/-! ### Trusted keys -/

theorem trustedDims_none_iff (key : PyStr) (dims : Dims) (effKey : PyStr) :
    trustedDims none key = some (dims, effKey) ↔
      WellFormed dims ∧ lstrip key (cp '/') = rebuildHiveKey dims ∧ effKey = key := by
  have heff : Option.getD none key = key := rfl
  rw [trustedDims, heff]
  constructor
  · intro h
    split at h
    · cases h
    · rename_i dims' hparse
      split at h
      · cases h
      · rename_i hsame
        cases h
        exact ⟨wellFormed_of_parse hparse, (not_not.mp hsame).symm, rfl⟩
  · rintro ⟨hwell, hkey, rfl⟩
    rw [parseHiveKey_of_rebuilt hwell hkey]
    exact if_neg (not_not.mpr hkey.symm)

/-- **The grammar of trusted keys.**  Over a source without overrides a key is resolved exactly if what is left of it without
its leading slashes is the template with well-formed fields, and then to these fields; no other fields give the same key,
and every key that is built from well-formed fields parses to them. -/
theorem resolveKeyDims_grammar {source : Source} (hkeys : ∀ t key, source.intendedKey t key = none) (key : PyStr) (w : World) :
    (∀ dims effKey, (resolveKeyDims key source w).1 = .ok (some (dims, effKey)) ↔
      WellFormed dims ∧ lstrip key (cp '/') = rebuildHiveKey dims ∧ effKey = key) ∧
    ((resolveKeyDims key source w).1 = .ok none ↔ ¬∃ dims, WellFormed dims ∧ lstrip key (cp '/') = rebuildHiveKey dims) ∧
    (∀ dims dims', WellFormed dims → WellFormed dims' → rebuildHiveKey dims = rebuildHiveKey dims' → dims = dims') ∧
    ∀ dims, WellFormed dims → parseHiveKey (rebuildHiveKey dims) = some dims := by
  have hrun : (resolveKeyDims key source w).1 = .ok (trustedDims none key) := by
    show Except.ok (trustedDims (source.intendedKey w.clock key) key) = _
    rw [hkeys]
  have hiff : ∀ dims effKey, (resolveKeyDims key source w).1 = .ok (some (dims, effKey)) ↔
      WellFormed dims ∧ lstrip key (cp '/') = rebuildHiveKey dims ∧ effKey = key := by
    intro dims effKey
    rw [hrun, ← trustedDims_none_iff]
    exact ⟨Except.ok.inj, congrArg Except.ok⟩
  refine ⟨hiff, ?_, fun _ _ h h' => rebuildHiveKey_inj h h', fun dims h => parseHiveKey_of_rebuilt h (lstrip_rebuildHiveKey dims)⟩
  constructor
  · rintro hnone ⟨dims, hwell, hkey⟩
    rw [(hiff dims key).mpr ⟨hwell, hkey, rfl⟩] at hnone
    cases hnone
  · intro hnone
    rw [hrun]
    refine congrArg Except.ok ?_
    cases htrusted : trustedDims none key with
    | none => rfl
    | some out =>
        obtain ⟨hwell, hkey, _⟩ := (trustedDims_none_iff key out.1 out.2).mp htrusted
        exact absurd ⟨out.1, hwell, hkey⟩ hnone

/-- A key with two leading slashes, equals signs and newlines in its fields. -/
def slashedKey : PyStr := py "//customer=a=b/customer_site=s\n/robot=r/source=x/date=d/f.mcap\n.mcap"

theorem resolveKeyDims_grammar_slashed :
    (resolveKeyDims slashedKey (s3Source (fun _ => ∅) []) ⟨⟨Db.empty, Db.empty, []⟩, Caches.empty, 0⟩).1 =
      .ok (some (⟨py "a=b", py "s\n", py "r", py "x", py "d", py "f.mcap\n.mcap"⟩, slashedKey)) := by
  refine ((resolveKeyDims_grammar (fun _ _ => rfl) slashedKey _).1 _ _).mpr ⟨⟨?_, ?_, ?_, ?_, ?_, ?_⟩, by decide, rfl⟩
  · exact ⟨by decide, by decide⟩
  · exact ⟨by decide, by decide⟩
  · exact ⟨by decide, by decide⟩
  · exact ⟨by decide, by decide⟩
  · exact ⟨by decide, by decide⟩
  · exact ⟨by decide, by decide, by decide⟩

end McapCatalog.Builder
