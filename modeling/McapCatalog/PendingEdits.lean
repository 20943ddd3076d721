import McapCatalog.TagIpc
import McapCatalog.Fingerprint
import Mathlib.Data.Finset.Card

/-!
# Edits awaiting their reply

The semaphore of the endpoint is meant to bound the edits that are on the queue or in the worker's hands.  A handler
gives its permit back when it has answered its client, and it answers with 503 when its own wait times out: its item is
then still on the queue.

* `EditState.pendingIds` — the edits the worker has not replied to;
* `Holding` — how many handlers stand at a kind of phase, and how one handler's step changes that;
* `Accounted`, `Bounded` — the invariants: each pending edit has a handler that waits or has timed out; permits and
  holders add up;
* `pending_le_maxPending` — **the bound holds in every run that hands out no permit while an abandoned edit is pending**;
* `overfull` — a run that exceeds it.
-/

namespace McapCatalog.TagIpc

open McapCatalog.PyText McapCatalog.PyError McapCatalog.KeyParse McapCatalog.Storage McapCatalog.Tables
open McapCatalog.Connection McapCatalog.CatalogDb McapCatalog.Reconcile McapCatalog.Worker
open McapCatalog.Builder

/-- The edits that are on the queue or in the worker's hands and have not been replied to. -/
def EditState.pendingIds (s : EditState) : List ℕ := s.worker.editId.toList ++ s.queue.filterMap Queued.editId

/-- The handler holds a permit. -/
def Handler.holdsPermit (h : Handler) : Bool :=
  match h.phase with
  | .admitted _ => true
  | .waiting _ _ => true
  | .answered _ => true
  | _ => false

/-- The handler holds a permit and its item is not on the queue yet. -/
def Handler.isAdmitted (h : Handler) : Bool :=
  match h.phase with
  | .admitted _ => true
  | _ => false

/-- The handler answered 503 because its wait timed out. -/
def Handler.hasTimedOut (h : Handler) : Prop := h.answer = some .timedOut

/-- The handler's item is on its way: it waits for it, or has given up on it, and no reply has come. -/
structure Handler.Awaited (h : Handler) : Prop where
  unset : h.event = none
  stands : (∃ item since, h.phase = .waiting item since) ∨ h.hasTimedOut

/-! ### Counting handlers -/

/-- Exactly `n` handlers satisfy `P`. -/
def Holding (P : Handler → Bool) (handlers : ℕ → Option Handler) (n : ℕ) : Prop :=
  ∃ ids : Finset ℕ, (∀ id, id ∈ ids ↔ (handlers id).any P = true) ∧ ids.card = n

/-- One handler's step changes the count by that handler. -/
theorem Holding.update {P : Handler → Bool} {handlers : ℕ → Option Handler} {n : ℕ} (hn : Holding P handlers n)
    (id : ℕ) (h : Handler) :
    ∃ m, Holding P (Function.update handlers id (some h)) m ∧
      m + ((handlers id).any P).toNat = n + (P h).toNat := by
  obtain ⟨ids, hids, rfl⟩ := hn
  have hother : ∀ id', id' ≠ id → ((Function.update handlers id (some h) id').any P = true ↔ id' ∈ ids) := by
    intro id' hne
    rw [Function.update_of_ne hne, hids]
  have hself : (Function.update handlers id (some h) id).any P = P h := by
    rw [Function.update_self]
    rfl
  cases hnew : P h with
  | true =>
      refine ⟨(insert id ids).card, ⟨insert id ids, fun id' => ?_, rfl⟩, ?_⟩
      · by_cases hid : id' = id
        · subst hid
          rw [hself, hnew]
          simp
        · rw [hother id' hid]
          simp [hid]
      · cases hold : (handlers id).any P with
        | true =>
            rw [Finset.insert_eq_of_mem ((hids id).mpr hold)]
        | false =>
            rw [Finset.card_insert_of_notMem fun hmem => by rw [hids, hold] at hmem; cases hmem]
            rfl
  | false =>
      refine ⟨(ids.erase id).card, ⟨ids.erase id, fun id' => ?_, rfl⟩, ?_⟩
      · by_cases hid : id' = id
        · subst hid
          rw [hself, hnew]
          simp
        · rw [hother id' hid]
          simp [hid]
      · cases hold : (handlers id).any P with
        | true =>
            have hmem : id ∈ ids := (hids id).mpr hold
            have hpos : 0 < ids.card := Finset.card_pos.mpr ⟨id, hmem⟩
            rw [Finset.card_erase_of_mem hmem]
            show ids.card - 1 + 1 = ids.card + 0
            omega
        | false =>
            rw [Finset.erase_eq_of_notMem fun hmem => by rw [hids, hold] at hmem; cases hmem]

/-! ### Every pending edit has its handler -/

/-- The handler has not put its item on the queue, and its event is not set. -/
def Handler.fresh (h : Handler) : Prop :=
  (h.phase = .reading ∨ ∃ edit, h.phase = .admitted edit) → h.event = none

/-- No edit is pending twice, each pending one has a handler that waits or has timed out, and no event is set before
its item is on the queue. -/
structure Accounted (s : EditState) : Prop where
  nodup : s.pendingIds.Nodup
  awaited : ∀ id ∈ s.pendingIds, ∃ h, s.handlers id = some h ∧ h.Awaited
  fresh : ∀ id h, s.handlers id = some h → h.fresh

theorem accounted_initial (cfg : Config) (w : World) : Accounted (EditState.initial cfg w) :=
  ⟨List.nodup_nil, fun _ h => absurd h List.not_mem_nil, fun _ _ h => by cases h⟩

section Steps

variable {env : Env} {cfg : Config} {s s' : EditState}

/-- Nothing that concerns the handlers changed. -/
theorem Accounted.of_eq (ha : Accounted s) (hids : s'.pendingIds = s.pendingIds) (hs : s'.handlers = s.handlers) :
    Accounted s' :=
  ⟨by rw [hids]; exact ha.nodup, by rw [hids, hs]; exact ha.awaited, by rw [hs]; exact ha.fresh⟩

/-- The handlers after one of them moved. -/
theorem handlers_update {id : ℕ} {h : Handler} (hs : s'.handlers = Function.update s.handlers id (some h))
    {id' : ℕ} {h' : Handler} (hid' : s'.handlers id' = some h') :
    id' = id ∧ h' = h ∨ id' ≠ id ∧ s.handlers id' = some h' := by
  rw [hs] at hid'
  by_cases heq : id' = id
  · rw [heq, Function.update_self] at hid'
    exact Or.inl ⟨heq, (Option.some.inj hid').symm⟩
  · rw [Function.update_of_ne heq] at hid'
    exact Or.inr ⟨heq, hid'⟩

/-- One handler's step, when the pending edits are the same. -/
theorem Accounted.setHandler (ha : Accounted s) (hids : s'.pendingIds = s.pendingIds) {id : ℕ} {h : Handler}
    (hs : s'.handlers = Function.update s.handlers id (some h))
    (hh : ∀ h₀, s.handlers id = some h₀ → h₀.Awaited → h.Awaited) (hf : h.fresh) : Accounted s' := by
  refine ⟨by rw [hids]; exact ha.nodup, fun id' hmem => ?_, fun id' h' hid' => ?_⟩
  · rw [hids] at hmem
    obtain ⟨h₀, hid', hawaited⟩ := ha.awaited id' hmem
    rw [hs]
    by_cases heq : id' = id
    · subst heq
      exact ⟨h, Function.update_self .., hh h₀ hid' hawaited⟩
    · exact ⟨h₀, by rw [Function.update_of_ne heq]; exact hid', hawaited⟩
  · cases handlers_update hs hid' with
    | inl heq => rw [heq.2]; exact hf
    | inr hne => exact ha.fresh id' h' hne.2

/-- A handler before its item is on the queue is not awaited. -/
theorem not_awaited {h : Handler} (hp : h.phase = .reading ∨ ∃ edit, h.phase = .admitted edit) : ¬h.Awaited := by
  intro haw
  cases hp with
  | inl hr => cases haw.stands with
    | inl hw => obtain ⟨item, since, hw⟩ := hw; rw [hr] at hw; cases hw
    | inr ht => rw [Handler.hasTimedOut, Handler.answer, hr] at ht; cases ht
  | inr hadm =>
      obtain ⟨edit, hadm⟩ := hadm
      cases haw.stands with
      | inl hw => obtain ⟨item, since, hw⟩ := hw; rw [hadm] at hw; cases hw
      | inr ht => rw [Handler.hasTimedOut, Handler.answer, hadm] at ht; cases ht

/-- A handler that is still reading takes its step. -/
theorem Accounted.ofReading (ha : Accounted s) (hids : s'.pendingIds = s.pendingIds) {id : ℕ} {h h' : Handler}
    (hid : s.handlers id = some h) (hp : h.phase = .reading)
    (hs : s'.handlers = Function.update s.handlers id (some h')) (he : h'.event = h.event) : Accounted s' := by
  refine ha.setHandler hids hs (fun h₀ hid₀ haw => ?_) fun _ => ?_
  · rw [hid] at hid₀
    cases hid₀
    exact absurd haw (not_awaited (Or.inl hp))
  · rw [he]
    exact ha.fresh id h hid (Or.inl hp)

theorem pendingIds_enqueues (s : EditState) (id : ℕ) (h : Handler) (item : TagEditItem) :
    (s.enqueues id h item).pendingIds = s.pendingIds ++ [id] := by
  show s.worker.editId.toList ++ (s.queue ++ [Queued.edit id item]).filterMap Queued.editId = _
  rw [List.filterMap_append, ← List.append_assoc]
  rfl

/-- **One step keeps the pending edits accounted for.** -/
theorem EditStep.accounted (hs : EditStep env cfg s s') (ha : Accounted s) : Accounted s' := by
  cases hs with
  | connect id request hid =>
      refine ha.setHandler rfl rfl (fun h₀ hid₀ _ => ?_) fun _ => rfl
      rw [hid] at hid₀
      cases hid₀
  | reject id hid hp hc => exact ha.ofReading rfl hid hp rfl rfl
  | busy id hid hp hc hs => exact ha.ofReading rfl hid hp rfl rfl
  | acquire id hid hp hc hs => exact ha.ofReading rfl hid hp rfl rfl
  | enqueue id hid hp =>
      rename_i h edit
      have hnew : id ∉ s.pendingIds := by
        intro hmem
        obtain ⟨h₀, hid₀, haw⟩ := ha.awaited id hmem
        rw [hid] at hid₀
        cases hid₀
        exact not_awaited (Or.inr ⟨edit, hp⟩) haw
      refine ⟨?_, fun id' hmem => ?_, fun id' h' hid' => ?_⟩
      · rw [pendingIds_enqueues]
        exact ha.nodup.append (List.nodup_singleton id) (List.disjoint_singleton.mpr hnew)
      · rw [pendingIds_enqueues] at hmem
        by_cases heq : id' = id
        · subst heq
          exact ⟨_, Function.update_self .., ha.fresh id' h hid (Or.inr ⟨edit, hp⟩), Or.inl ⟨_, _, rfl⟩⟩
        · cases List.mem_append.mp hmem with
          | inl hold =>
              obtain ⟨h₀, hid₀, haw⟩ := ha.awaited id' hold
              exact ⟨h₀, (Function.update_of_ne heq ..).trans hid₀, haw⟩
          | inr hsame => exact absurd (List.mem_singleton.mp hsame) heq
      · cases handlers_update rfl hid' with
        | inl heq =>
            rw [heq.2]
            exact fun _ => ha.fresh id h hid (Or.inr ⟨edit, hp⟩)
        | inr hne => exact ha.fresh id' h' hne.2
  | wake id hid hp he =>
      refine ha.setHandler rfl rfl (fun h₀ hid₀ haw => ?_) fun hp' => ?_
      · rw [hid] at hid₀
        cases hid₀
        rw [haw.unset] at he
        cases he
      · simp at hp'
  | giveUp id hid hp he ht =>
      refine ha.setHandler rfl rfl (fun h₀ hid₀ haw => ⟨he, Or.inr rfl⟩) fun _ => he
  | release id hid hp =>
      refine ha.setHandler rfl rfl (fun h₀ hid₀ haw => ?_) fun hp' => by simp at hp'
      rw [hid] at hid₀
      cases hid₀
      refine ⟨haw.unset, Or.inr ?_⟩
      cases haw.stands with
      | inl hw =>
          obtain ⟨item, since, hphase⟩ := hw
          rw [hp] at hphase
          cases hphase
      | inr ht =>
          rw [Handler.hasTimedOut, Handler.answer, hp] at ht
          exact ht
  | post item hi =>
      refine ha.of_eq ?_ rfl
      simp [EditState.pendingIds, EditState.posts, Queued.editId]
  | take hw hq =>
      rename_i queued rest
      refine ha.of_eq ?_ rfl
      rw [EditState.pendingIds, EditState.pendingIds, hw, hq]
      cases queued <;> rfl
  | stop hw =>
      refine ha.of_eq ?_ rfl
      rw [EditState.pendingIds, EditState.pendingIds, hw]
      rfl
  | runEvent source workers hw hi =>
      refine ha.of_eq ?_ rfl
      rw [EditState.pendingIds, EditState.pendingIds, hw]
      rfl
  | runEdit source workers hw hread hrun =>
      refine ha.of_eq ?_ rfl
      rw [EditState.pendingIds, EditState.pendingIds, hw]
      rfl
  | setEvent hw hid =>
      rename_i id result h
      have hids : s.pendingIds = id :: s.queue.filterMap Queued.editId := by
        rw [EditState.pendingIds, hw]
        rfl
      have hnodup := ha.nodup
      rw [hids] at hnodup
      refine ⟨(List.nodup_cons.mp hnodup).2, fun id' hmem => ?_, fun id' h' hid' => ?_⟩
      · have hne : id' ≠ id := by
          rintro rfl
          exact (List.nodup_cons.mp hnodup).1 hmem
        obtain ⟨h₀, hid₀, haw⟩ := ha.awaited id' (by rw [hids]; exact List.mem_cons_of_mem _ hmem)
        exact ⟨h₀, (Function.update_of_ne hne ..).trans hid₀, haw⟩
      · cases handlers_update rfl hid' with
        | inl heq =>
            obtain ⟨h₀, hid₀, haw⟩ := ha.awaited id (by rw [hids]; exact List.mem_cons_self)
            rw [hid] at hid₀
            cases hid₀
            rw [heq.2]
            exact fun hp => absurd haw (not_awaited hp)
        | inr hne => exact ha.fresh id' h' hne.2
  | advance n => exact ha.of_eq rfl rfl

theorem Steps.accounted (hs : Steps env cfg s s') (ha : Accounted s) : Accounted s' := by
  induction hs with
  | refl => exact ha
  | tail _ hstep ih => exact hstep.accounted ih

/-! ### Permits -/

/-- Permits and their holders add up to the bound. -/
def PermitsBalance (cfg : Config) (s : EditState) : Prop :=
  ∃ n, Holding Handler.holdsPermit s.handlers n ∧ s.permits + n = cfg.maxPending

theorem holding_none (P : Handler → Bool) : Holding P (fun _ => none) 0 := ⟨∅, fun id => by simp, rfl⟩

theorem permitsBalance_initial (cfg : Config) (w : World) : PermitsBalance cfg (EditState.initial cfg w) :=
  ⟨0, holding_none _, rfl⟩

/-- One handler moves, and its permit with it. -/
theorem PermitsBalance.setHandler (hb : PermitsBalance cfg s) {id : ℕ} {h : Handler}
    (hs : s'.handlers = Function.update s.handlers id (some h))
    (hp : s'.permits + (h.holdsPermit).toNat = s.permits + ((s.handlers id).any Handler.holdsPermit).toNat) :
    PermitsBalance cfg s' := by
  obtain ⟨n, hn, hsum⟩ := hb
  obtain ⟨m, hm, hcount⟩ := hn.update id h
  refine ⟨m, by rw [hs]; exact hm, ?_⟩
  omega

/-- **One step keeps the balance of the semaphore.** -/
theorem EditStep.permitsBalance (hs : EditStep env cfg s s') (hb : PermitsBalance cfg s) : PermitsBalance cfg s' := by
  cases hs with
  | connect id request hid => exact hb.setHandler rfl (by rw [hid]; rfl)
  | reject id hid hp hc =>
      exact hb.setHandler rfl (by rw [hid]; simp [Handler.holdsPermit, hp, EditState.refuses, EditState.setHandler])
  | busy id hid hp hc hs =>
      exact hb.setHandler rfl (by rw [hid]; simp [Handler.holdsPermit, hp, EditState.refuses, EditState.setHandler])
  | acquire id hid hp hc hs =>
      refine hb.setHandler rfl ?_
      rw [hid, hs]
      simp [Handler.holdsPermit, hp, EditState.admits]
  | enqueue id hid hp =>
      refine hb.setHandler rfl ?_
      rw [hid]
      simp [Handler.holdsPermit, hp, EditState.enqueues, EditState.setHandler]
  | wake id hid hp he =>
      refine hb.setHandler rfl ?_
      rw [hid]
      simp [Handler.holdsPermit, hp, EditState.answers, EditState.setHandler]
  | giveUp id hid hp he ht =>
      refine hb.setHandler rfl ?_
      rw [hid]
      simp [Handler.holdsPermit, hp, EditState.answers, EditState.setHandler]
  | release id hid hp =>
      refine hb.setHandler rfl ?_
      rw [hid]
      simp [Handler.holdsPermit, hp, EditState.releases]
  | setEvent hw hid =>
      refine hb.setHandler rfl ?_
      rw [hid]
      rfl
  | post item hi => exact hb
  | take hw hq => exact hb
  | stop hw => exact hb
  | runEvent source workers hw hi => exact hb
  | runEdit source workers hw hread hrun => exact hb
  | advance n => exact hb

/-! ### The bound -/

/-- The handlers that hold a permit and are about to enqueue, together with the pending edits, are within the bound. -/
def Bounded (cfg : Config) (s : EditState) : Prop :=
  ∃ n, Holding Handler.isAdmitted s.handlers n ∧ n + s.pendingIds.length ≤ cfg.maxPending

/-- A step hands out no permit while an edit whose handler has timed out is pending. -/
def Patient (s s' : EditState) : Prop :=
  s'.permits < s.permits → ∀ id h, s.handlers id = some h → h.hasTimedOut → h.event ≠ none

/-- **No abandoned edit is pending**: then every pending edit has a permit of its own. -/
theorem bounded_of_noneAbandoned (ha : Accounted s) (hb : PermitsBalance cfg s)
    (hnone : ∀ id h, s.handlers id = some h → h.hasTimedOut → h.event ≠ none) {n : ℕ}
    (hn : Holding Handler.isAdmitted s.handlers n) : n + s.pendingIds.length + s.permits ≤ cfg.maxPending := by
  obtain ⟨ids, hids, rfl⟩ := hn
  obtain ⟨m, ⟨holders, hholders, rfl⟩, hsum⟩ := hb
  have hdisjoint : Disjoint ids s.pendingIds.toFinset := by
    rw [Finset.disjoint_left]
    intro id hadmitted hpending
    obtain ⟨h, hid, haw⟩ := ha.awaited id (List.mem_toFinset.mp hpending)
    have hany := (hids id).mp hadmitted
    rw [hid] at hany
    have hphase : ∃ edit, h.phase = .admitted edit := by
      rcases h with ⟨request, phase, event⟩
      cases phase <;> simp_all [Handler.isAdmitted]
    exact not_awaited (Or.inr hphase) haw
  have hsubset : ids ∪ s.pendingIds.toFinset ⊆ holders := by
    intro id hmem
    rw [hholders]
    cases Finset.mem_union.mp hmem with
    | inl hadmitted =>
        have hany := (hids id).mp hadmitted
        obtain ⟨h, hid, hh⟩ := (Option.any_eq_true _ _).mp hany
        refine (Option.any_eq_true _ _).mpr ⟨h, hid, ?_⟩
        rcases h with ⟨request, phase, event⟩
        cases phase <;> simp_all [Handler.isAdmitted, Handler.holdsPermit]
    | inr hpending =>
        obtain ⟨h, hid, haw⟩ := ha.awaited id (List.mem_toFinset.mp hpending)
        refine (Option.any_eq_true _ _).mpr ⟨h, hid, ?_⟩
        cases haw.stands with
        | inl hw =>
            obtain ⟨item, since, hphase⟩ := hw
            rw [Handler.holdsPermit, hphase]
        | inr ht => exact absurd haw.unset (hnone id h hid ht)
  have hcard := Finset.card_le_card hsubset
  rw [Finset.card_union_of_disjoint hdisjoint, List.toFinset_card_of_nodup ha.nodup] at hcard
  omega

theorem bounded_initial (cfg : Config) (w : World) : Bounded cfg (EditState.initial cfg w) :=
  ⟨0, holding_none _, Nat.zero_le _⟩

/-- One handler moves without being admitted, and no edit joins the pending ones. -/
theorem Bounded.setHandler (hb : Bounded cfg s) {id : ℕ} {h : Handler}
    (hs : s'.handlers = Function.update s.handlers id (some h)) (hids : s'.pendingIds.length ≤ s.pendingIds.length)
    (hp : h.isAdmitted = true → (s.handlers id).any Handler.isAdmitted = true) : Bounded cfg s' := by
  obtain ⟨n, hn, hle⟩ := hb
  obtain ⟨m, hm, hcount⟩ := hn.update id h
  refine ⟨m, by rw [hs]; exact hm, ?_⟩
  cases hadm : h.isAdmitted with
  | true =>
      rw [hadm, hp hadm] at hcount
      omega
  | false =>
      rw [hadm] at hcount
      have hzero : false.toNat = 0 := rfl
      omega

/-- Nothing that the bound is about grew. -/
theorem Bounded.of_le (hb : Bounded cfg s) (hs : s'.handlers = s.handlers)
    (hp : s'.pendingIds.length ≤ s.pendingIds.length) : Bounded cfg s' := by
  obtain ⟨n, hn, hle⟩ := hb
  exact ⟨n, by rw [hs]; exact hn, by omega⟩

/-- **One patient step keeps the bound.** -/
theorem EditStep.bounded (hs : EditStep env cfg s s') (hpatient : Patient s s') (ha : Accounted s)
    (hbalance : PermitsBalance cfg s) (hb : Bounded cfg s) : Bounded cfg s' := by
  cases hs with
  | connect id request hid => exact hb.setHandler rfl (Nat.le_refl _) fun h => by cases h
  | reject id hid hp hc => exact hb.setHandler rfl (Nat.le_refl _) fun h => by cases h
  | busy id hid hp hc hs => exact hb.setHandler rfl (Nat.le_refl _) fun h => by cases h
  | acquire id hid hp hc hs =>
      rename_i h edit n
      have hnone := hpatient (by show n < s.permits; omega)
      obtain ⟨k, hk, _⟩ := hb
      have hroom := bounded_of_noneAbandoned ha hbalance hnone hk
      obtain ⟨m, hm, hcount⟩ := hk.update id { h with phase := .admitted edit }
      refine ⟨m, hm, ?_⟩
      have hold : ((s.handlers id).any Handler.isAdmitted).toNat = 0 := by
        rw [hid]
        simp [Handler.isAdmitted, hp]
      have hnew : (Handler.isAdmitted { h with phase := .admitted edit }).toNat = 1 := rfl
      show m + s.pendingIds.length ≤ _
      omega
  | enqueue id hid hp =>
      rename_i h edit
      obtain ⟨n, hn, hle⟩ := hb
      generalize edit.item (env.monotonic s.world.clock + cfg.deadlineSeconds) = item
      obtain ⟨m, hm, hcount⟩ := hn.update id { h with phase := .waiting item s.world.clock }
      refine ⟨m, hm, ?_⟩
      have hold : ((s.handlers id).any Handler.isAdmitted).toNat = 1 := by
        rw [hid]
        simp [Handler.isAdmitted, hp]
      have hnew : (Handler.isAdmitted { h with phase := .waiting item s.world.clock }).toNat = 0 := rfl
      rw [pendingIds_enqueues, List.length_append, List.length_singleton]
      omega
  | wake id hid hp he => exact hb.setHandler rfl (Nat.le_refl _) fun h => by cases h
  | giveUp id hid hp he ht => exact hb.setHandler rfl (Nat.le_refl _) fun h => by cases h
  | release id hid hp => exact hb.setHandler rfl (Nat.le_refl _) fun h => by cases h
  | setEvent hw hid =>
      refine hb.setHandler rfl ?_ fun h => by rw [hid]; exact h
      simp [EditState.pendingIds, EditState.replies, EditState.setHandler, WorkerPhase.editId]
  | post item hi =>
      refine hb.of_le rfl (Nat.le_of_eq ?_)
      simp [EditState.pendingIds, EditState.posts, Queued.editId]
  | take hw hq =>
      rename_i queued rest
      refine hb.of_le rfl (Nat.le_of_eq ?_)
      rw [EditState.pendingIds, EditState.pendingIds, hw, hq]
      cases queued <;> rfl
  | stop hw =>
      refine hb.of_le rfl (Nat.le_of_eq ?_)
      rw [EditState.pendingIds, EditState.pendingIds, hw]
      rfl
  | runEvent source workers hw hi =>
      refine hb.of_le rfl (Nat.le_of_eq ?_)
      rw [EditState.pendingIds, EditState.pendingIds, hw]
      rfl
  | runEdit source workers hw hread hrun =>
      refine hb.of_le rfl (Nat.le_of_eq ?_)
      rw [EditState.pendingIds, EditState.pendingIds, hw]
      rfl
  | advance n => exact hb.of_le rfl (Nat.le_refl _)

/-- A run whose steps are all patient. -/
def PatientSteps (env : Env) (cfg : Config) : EditState → EditState → Prop :=
  Relation.ReflTransGen fun s s' => EditStep env cfg s s' ∧ Patient s s'

/-- **A patient run keeps the pending edits within the bound.** -/
theorem pending_le_maxPending {w : World} (h : PatientSteps env cfg (EditState.initial cfg w) s) :
    s.pendingIds.length ≤ cfg.maxPending := by
  have hall : Accounted s ∧ PermitsBalance cfg s ∧ Bounded cfg s := by
    induction h with
    | refl => exact ⟨accounted_initial cfg w, permitsBalance_initial cfg w, bounded_initial cfg w⟩
    | tail _ hstep ih =>
        obtain ⟨ha, hbalance, hb⟩ := ih
        exact ⟨hstep.1.accounted ha, hstep.1.permitsBalance hbalance, hstep.1.bounded hstep.2 ha hbalance hb⟩
  obtain ⟨n, _, hle⟩ := hall.2.2
  omega

/-! ### Runs that fill the queue -/

/-- The state after a request was accepted and its item enqueued: its client connected, a permit was taken. -/
def EditState.submits (env : Env) (cfg : Config) (s : EditState) (id : ℕ) (request : Request) (edit : Edit) (n : ℕ) :
    EditState :=
  ((s.setHandler id ⟨request, .reading, none⟩).admits id ⟨request, .reading, none⟩ edit n).enqueues id
    ⟨request, .admitted edit, none⟩ (edit.item (env.monotonic s.world.clock + cfg.deadlineSeconds))

/-- **A request that passes the checks gets its edit on the queue** while a permit is free. -/
theorem step_submits (env : Env) (cfg : Config) {i : ℕ} {request : Request} {edit : Edit} {n : ℕ}
    (hid : s.handlers i = none) (hc : checkRequest cfg.repr request = .ok edit) (hn : s.permits = n + 1) :
    EditStep env cfg s (s.setHandler i ⟨request, .reading, none⟩) ∧
      EditStep env cfg (s.setHandler i ⟨request, .reading, none⟩)
        ((s.setHandler i ⟨request, .reading, none⟩).admits i ⟨request, .reading, none⟩ edit n) ∧
      EditStep env cfg ((s.setHandler i ⟨request, .reading, none⟩).admits i ⟨request, .reading, none⟩ edit n)
        (s.submits env cfg i request edit n) := by
  refine ⟨EditStep.connect s i request hid, ?_, ?_⟩
  · exact EditStep.acquire _ i (Function.update_self ..) rfl hc hn
  · exact EditStep.enqueue _ i (h := ⟨request, .admitted edit, none⟩) (Function.update_self ..) rfl

/-- The state after a handler gave up waiting, `n` readings of the clock later, and returned its permit. -/
def EditState.abandons (s : EditState) (id : ℕ) (h : Handler) (n : ℕ) : EditState :=
  ((EditState.mk { s.world with clock := s.world.clock + n } s.queue s.worker s.permits s.handlers s.log).answers id h
    .timedOut).releases id { h with phase := .answered .timedOut } .timedOut

/-- **A handler whose event is not set in time returns its permit**, whatever became of its item. -/
theorem steps_abandons (env : Env) (cfg : Config) {id : ℕ} {h : Handler} {item : TagEditItem} {since n : ℕ} (hid : s.handlers id = some h)
    (hp : h.phase = .waiting item since) (he : h.event = none)
    (ht : env.monotonic since + cfg.waitTimeout ≤ env.monotonic (s.world.clock + n)) :
    Steps env cfg s (s.abandons id h n) := by
  refine ((Relation.ReflTransGen.single (EditStep.advance s n)).tail (EditStep.giveUp _ id hid hp he ht)).tail ?_
  exact EditStep.release _ id (h := { h with phase := .answered .timedOut }) (Function.update_self ..) rfl

/-- **A permit serves twice** while the worker is busy: two requests, one after the other, leave two pending edits. -/
theorem steps_permitTwice (env : Env) (cfg : Config) {i j : ℕ} {request : Request} {edit : Edit} {n k : ℕ}
    (hi : s.handlers i = none) (hj : s.handlers j = none) (hij : j ≠ i) (hc : checkRequest cfg.repr request = .ok edit) (hn : s.permits = n + 1)
    (ht : env.monotonic s.world.clock + cfg.waitTimeout ≤ env.monotonic (s.world.clock + 1 + k)) :
    ∃ s', Steps env cfg s s' ∧ s'.pendingIds = s.pendingIds ++ [i] ++ [j] := by
  obtain ⟨h1, h2, h3⟩ := step_submits env cfg hi hc hn
  have hfirst : Steps env cfg s (s.submits env cfg i request edit n) :=
    ((Relation.ReflTransGen.single h1).tail h2).tail h3
  have hwaits : (s.submits env cfg i request edit n).handlers i = some ⟨request, .waiting
      (edit.item (env.monotonic s.world.clock + cfg.deadlineSeconds)) s.world.clock, none⟩ := Function.update_self ..
  have hgone := steps_abandons env cfg (n := k) hwaits rfl rfl ht
  have hfree : ((s.submits env cfg i request edit n).abandons i ⟨request, .waiting
      (edit.item (env.monotonic s.world.clock + cfg.deadlineSeconds)) s.world.clock, none⟩ k).handlers j = none := by
    simp only [EditState.abandons, EditState.releases, EditState.answers, EditState.submits, EditState.enqueues, EditState.admits,
      EditState.setHandler, Function.update_of_ne hij]
    exact hj
  obtain ⟨h4, h5, h6⟩ := step_submits env cfg (n := n) hfree hc rfl
  refine ⟨_, ((hfirst.trans hgone).tail h4).tail h5 |>.tail h6, ?_⟩
  rw [EditState.submits, pendingIds_enqueues]
  refine congrArg (· ++ [j]) ?_
  show (s.submits env cfg i request edit n).pendingIds = s.pendingIds ++ [i]
  exact pendingIds_enqueues _ i _ _

end Steps

/-- A request to set one tag. -/
def noteRequest : Request where
  path := py "/update_tags"
  contentLength := .value 100
  body := .ok (some (.object
    [(py "key", .string (py "customer=a/customer_site=s/robot=r/source=x/date=d/a.mcap")),
      (py "set_tags", .object [(py "note", .string (py "dusty"))])]))

theorem noteRequest_accepted : ∃ edit, checkRequest id noteRequest = .ok edit := by
  have hok : (checkRequest id noteRequest).isOk = true := by decide +kernel
  cases hc : checkRequest id noteRequest with
  | ok edit => exact ⟨edit, rfl⟩
  | error why => rw [hc] at hok; cases hok

/-- An endpoint for one pending edit. -/
def singleConfig : Config := ⟨5, 1, id⟩

theorem pending_le_maxPending_one : ∃ s, PatientSteps oneTopicEnv singleConfig
    (EditState.initial singleConfig (opened Db.empty 0)) s ∧ s.pendingIds = [0] ∧
      s.pendingIds.length ≤ singleConfig.maxPending := by
  obtain ⟨edit, hedit⟩ := noteRequest_accepted
  obtain ⟨h1, h2, h3⟩ := step_submits oneTopicEnv singleConfig
    (s := EditState.initial singleConfig (opened Db.empty 0)) (i := 0) (n := 0) rfl hedit rfl
  have hnone : ∀ id h, ((EditState.initial singleConfig (opened Db.empty 0)).setHandler 0
      ⟨noteRequest, .reading, none⟩).handlers id = some h → h.hasTimedOut → h.event ≠ none := by
    intro id h hid ht
    cases handlers_update (s := EditState.initial singleConfig (opened Db.empty 0)) rfl hid with
    | inl heq => rw [heq.2] at ht; cases ht
    | inr hne => cases hne.2
  have hrun : PatientSteps oneTopicEnv singleConfig (EditState.initial singleConfig (opened Db.empty 0))
      ((EditState.initial singleConfig (opened Db.empty 0)).submits oneTopicEnv singleConfig 0 noteRequest edit 0) := by
    refine ((Relation.ReflTransGen.single ⟨h1, fun hlt => ?_⟩).tail ⟨h2, fun _ => hnone⟩).tail ⟨h3, fun hlt => ?_⟩
    · exact absurd hlt (Nat.lt_irrefl _)
    · exact absurd hlt (Nat.lt_irrefl _)
  exact ⟨_, hrun, rfl, pending_le_maxPending hrun⟩

/-- An endpoint whose worker has just taken a rescan off the queue. -/
def rescanning : EditState := ((EditState.initial singleConfig (opened Db.empty 0)).posts .rescan).takes (.event .rescan) []

/-- **One permit, two pending edits**: while the worker is in a rescan, the first handler times out and returns its
permit, and the next request takes it. -/
theorem rescanning_overfull : ∃ s, Steps oneTopicEnv singleConfig (EditState.initial singleConfig (opened Db.empty 0)) s ∧
    singleConfig.maxPending < s.pendingIds.length := by
  obtain ⟨edit, hedit⟩ := noteRequest_accepted
  have hposted : EditStep oneTopicEnv singleConfig (EditState.initial singleConfig (opened Db.empty 0))
      ((EditState.initial singleConfig (opened Db.empty 0)).posts .rescan) :=
    EditStep.post _ .rescan fun _ h => by cases h
  have htaken : EditStep oneTopicEnv singleConfig ((EditState.initial singleConfig (opened Db.empty 0)).posts .rescan)
      rescanning := EditStep.take _ rfl rfl
  have htime : oneTopicEnv.monotonic rescanning.world.clock + singleConfig.waitTimeout ≤
      oneTopicEnv.monotonic (rescanning.world.clock + 1 + 7) := by decide
  obtain ⟨s, hrun, hpending⟩ := steps_permitTwice oneTopicEnv singleConfig (s := rescanning)
    (i := 0) (j := 1) (n := 0) rfl rfl (by decide) hedit rfl htime
  refine ⟨s, ((Relation.ReflTransGen.single hposted).tail htaken).trans hrun, ?_⟩
  rw [hpending]
  decide

end McapCatalog.TagIpc
