import McapCatalog.ReconcileView

/-!
# What can be recorded

What becomes of a listed object is stored: its row, or its failure.  Texts without a UTF-8 encoding cannot be, and a reconcile
that has to store one raises.

* `bindError_names`, `writeEffect_ok` — a key that can be encoded has fields that can, and its write comes to something;
* `Recordable`, `blocked_iff` — **which objects make a reconcile raise**, in terms of what can be encoded;
* `Bindable`, `not_blocked_of_bindable` — a source whose texts can all be encoded, whatever is stored already.
-/

namespace McapCatalog.Builder

open McapCatalog.PyText McapCatalog.PyError McapCatalog.KeyParse McapCatalog.McapSummary McapCatalog.Storage
open McapCatalog.Tables McapCatalog.RowidTable McapCatalog.KeyedRows
open McapCatalog.Connection McapCatalog.CatalogDb McapCatalog.Reconcile McapCatalog.Worker

variable {source : Source} {listings : List Listing} {c : Logical}

theorem failureError_eq_none_iff {key text : PyStr} :
    failureError key text = none ↔ encodable key = true ∧ encodable text = true := by
  simp only [failureError, bindError_cons_eq_none_iff, bindError_text_eq_none_iff, bindError_nil, and_true]

/-- The fields of a resolved key can be encoded if the key can. -/
theorem bindError_names {key effKey : PyStr} {dims : Dims} (h : resolution source key = some (dims, effKey))
    (he : encodable effKey = true) :
    bindError (nameParams dims) = none ∧ bindError (compositeParams dims) = none := by
  have hrebuild := encodable_rebuildHiveKey dims
  rw [(trustedDims_eq_some h).2, encodable_lstrip, he] at hrebuild
  simp only [Bool.true_eq, Bool.and_eq_true] at hrebuild
  obtain ⟨⟨⟨⟨⟨hc, hs⟩, hr⟩, hx⟩, hd⟩, hf⟩ := hrebuild
  simp only [nameParams, compositeParams, bindError_cons_eq_none_iff, bindError_text_eq_none_iff]
  exact ⟨⟨hc, hs, hr, hx, bindError_nil⟩, hd, hf, bindError_nil⟩

/-- A write of a resolved key always comes to something. -/
theorem writeEffect_ok {written : Written} (hc : bindError (compositeParams written.dims) = none)
    (hk : encodable written.effKey = true) : ∃ r, writeEffect written = .ok r := by
  rw [writeEffect]
  rcases he : transactionError true written with _ | e
  · exact ⟨_, rfl⟩
  · have hquarantine : quarantineError written.dims written.effKey e.errorText = none := by
      rw [quarantineError, hc, failureError_eq_none_iff.mpr ⟨hk, errorText_transactionError he⟩]
      rfl
    exact ⟨(⟨.failed, e.str⟩, .quarantine written.dims written.effKey e.errorText), by
      simp only [hquarantine]; rfl⟩

/-- Whatever becomes of the object can be recorded: nothing has to be stored about it, or what has to be stored has an
encoding. -/
def Recordable (source : Source) (c : Logical) (lst : Listing) : Prop :=
  match resolution source lst.key with
  | none => encodable lst.key = true
  | some (dims, effKey) =>
    (c.files dims).map (fun written => written.stat.etag) = some lst.stat.etag ∨
      match source.readSummary 0 lst.key lst.stat.size with
      | .ok _ => encodable effKey = true
      | .error e => source.stat 0 lst.key = .ok none ∨ encodable effKey = true ∧ encodable e.errorText = true

/-- A job comes to an error exactly when its object cannot be recorded. -/
theorem error_iff_of_job {job : Job} (hres : resolution source job.key = some (job.dims, job.effKey)) :
    (∃ e, effectOf (extracted source job) = .error e) ↔
      ¬match source.readSummary 0 job.key job.stat.size with
        | .ok _ => encodable job.effKey = true
        | .error e => source.stat 0 job.key = .ok none ∨ encodable job.effKey = true ∧ encodable e.errorText = true := by
  rw [effectOf_extracted]
  cases hread : source.readSummary 0 job.key job.stat.size with
  | ok summary =>
      simp only
      by_cases henc : encodable job.effKey = true
      · obtain ⟨hn, hc⟩ := bindError_names hres henc
        obtain ⟨r, hr⟩ : ∃ r, writeEffect ⟨job.dims, job.effKey, job.stat, summary⟩ = .ok r := writeEffect_ok hc henc
        rw [hn]
        refine iff_of_false ?_ (fun h => h henc)
        rintro ⟨e, he⟩
        rw [hr] at he
        cases he
      · refine iff_of_true ?_ henc
        cases hn : bindError (nameParams job.dims) with
        | some e => exact ⟨e, rfl⟩
        | none =>
            -- The transaction cannot delete the failure of an unencodable key, and the quarantine cannot record one.
            have htransaction : transactionError true ⟨job.dims, job.effKey, job.stat, summary⟩ ≠ none := by
              intro hnone
              simp only [transactionError, Option.or_eq_none_iff] at hnone
              rw [bindError_single, bindError_text_eq_none_iff] at hnone
              exact henc hnone.2
            obtain ⟨e, he⟩ := Option.ne_none_iff_exists'.mp htransaction
            have hquarantine : quarantineError job.dims job.effKey e.errorText ≠ none := by
              intro hnone
              rw [quarantineError, Option.or_eq_none_iff, failureError_eq_none_iff] at hnone
              exact henc hnone.2.1
            obtain ⟨e', he'⟩ := Option.ne_none_iff_exists'.mp hquarantine
            refine ⟨e', ?_⟩
            simp only [writeEffect, he, he', unlessError]
  | error e =>
      have hmain : (∃ e', unlessError ((bindError (nameParams job.dims)).or (quarantineError job.dims job.effKey e.errorText))
          (((⟨.failed, e.errorText⟩, .quarantine job.dims job.effKey e.errorText)) : CatalogResult × Effect) = .error e') ↔
            ¬(encodable job.effKey = true ∧ encodable e.errorText = true) := by
        by_cases henc : encodable job.effKey = true ∧ encodable e.errorText = true
        · obtain ⟨hn, hc⟩ := bindError_names hres henc.1
          refine iff_of_false ?_ (fun h => h henc)
          rw [hn, Option.none_or, quarantineError, hc, Option.none_or, failureError_eq_none_iff.mpr henc]
          rintro ⟨e', he'⟩
          cases he'
        · refine iff_of_true ?_ henc
          have hsome : (bindError (nameParams job.dims)).or (quarantineError job.dims job.effKey e.errorText) ≠ none := by
            intro hnone
            rw [Option.or_eq_none_iff, quarantineError, Option.or_eq_none_iff, failureError_eq_none_iff] at hnone
            exact henc hnone.2.2
          obtain ⟨e', he'⟩ := Option.ne_none_iff_exists'.mp hsome
          exact ⟨e', by rw [he']; rfl⟩
      rcases source.stat 0 job.key with e' | _ | stat
      · simp only [reduceCtorEq, false_or]
        exact hmain
      · refine iff_of_false ?_ (fun h => h (Or.inl rfl))
        rintro ⟨e', he'⟩
        cases he'
      · simp only [Except.ok.injEq, reduceCtorEq, false_or]
        exact hmain

/-- **A reconcile is blocked exactly by the objects that cannot be recorded.** -/
theorem blocked_iff : Blocked source c listings ↔ ∃ lst ∈ listings, ¬Recordable source c lst := by
  have hunrecordable : ∀ lst, resolution source lst.key = none → (Unrecordable source lst ↔ ¬Recordable source c lst) := by
    intro lst hres
    rw [Unrecordable, Recordable, hres]
    simp only [true_and, ne_eq, failureError_eq_none_iff, show encodable (py "unparseable key") = true by decide, and_true]
  constructor
  · rintro (⟨lst, hlst, hbad⟩ | ⟨job, hjob, herror⟩)
    · exact ⟨lst, hlst, (hunrecordable lst hbad.1).mp hbad⟩
    · obtain ⟨lst, hlst, hkey, hstat, hres, hdiff⟩ := mem_jobsOf.mp hjob
      refine ⟨lst, hlst, ?_⟩
      rw [Recordable, hres]
      simp only [hdiff, false_or]
      rw [hkey] at hres
      rw [hkey, hstat]
      exact (error_iff_of_job hres).mp herror
  · rintro ⟨lst, hlst, hbad⟩
    cases hres : resolution source lst.key with
    | none => exact Or.inl ⟨lst, hlst, (hunrecordable lst hres).mpr hbad⟩
    | some trusted =>
        obtain ⟨dims, effKey⟩ := trusted
        rw [Recordable, hres] at hbad
        simp only [not_or] at hbad
        exact Or.inr ⟨⟨lst.key, lst.stat, dims, effKey⟩, mem_jobsOf.mpr ⟨lst, hlst, rfl, rfl, hres, hbad.1⟩,
          (error_iff_of_job hres).mpr hbad.2⟩

/-! ### Sources whose texts can be stored -/

/-- The keys of the listed objects and the texts of their read errors can be encoded. -/
structure Bindable (source : Source) (listings : List Listing) : Prop where
  keys : ∀ lst ∈ listings, encodable lst.key = true
  effKeys : ∀ lst ∈ listings, ∀ dims effKey, resolution source lst.key = some (dims, effKey) →
    encodable effKey = true
  texts : ∀ lst ∈ listings, ∀ e, source.readSummary 0 lst.key lst.stat.size = .error e →
    encodable e.errorText = true

/-- What becomes of the objects of such a source can be recorded. -/
theorem recordable_of_bindable (hb : Bindable source listings) (c : Logical) {lst : Listing} (hlst : lst ∈ listings) :
    Recordable source c lst := by
  rw [Recordable]
  cases hres : resolution source lst.key with
  | none => exact hb.keys lst hlst
  | some trusted =>
      refine Or.inr ?_
      have heff := hb.effKeys lst hlst trusted.1 trusted.2 hres
      cases hread : source.readSummary 0 lst.key lst.stat.size with
      | ok summary => exact heff
      | error e => exact Or.inr ⟨heff, hb.texts lst hlst e hread⟩

/-- **A reconcile of such a source does not raise.** -/
theorem not_blocked_of_bindable (hb : Bindable source listings) (c : Logical) : ¬Blocked source c listings := fun hblocked => by
  obtain ⟨lst, hlst, hbad⟩ := blocked_iff.mp hblocked
  exact hbad (recordable_of_bindable hb c hlst)

end McapCatalog.Builder
