/-
**Coherent conflict plans.**

The ladder has many rungs, and each writes another combination of insert, demotion, record, event and
cache update.  Every plan has one of five shapes, and each shape leaves the store, the events and the
batch's claims in step with each other.

Main definitions:

* `PlanShape` — the five shapes of a plan;
* `Born`, `RetiredBy` — what a plan adds to the store, and what it retires;
* `TriggerHeld` — the trigger reference names something that is stored;
* `Coherent` — what a plan leaves is in step.

Main results:

* `planShape_planConflictWrites` — **every outcome of the ladder gives one of the five shapes**;
* `coherent_planConflictWrites` — **applying the plan of any outcome is coherent**;
* `coherent_planRetiredHold` — so is the hold of a claim that was retired by judgment;
* `not_cached_without_embedding` — a claim without an embedding ends ACTIVE and is not cached.
-/

import ParticlesEngine.ConflictPlan

set_option relaxedAutoImplicit false
set_option autoImplicit false

namespace ParticlesEngine

/-! ### The shapes of a plan -/

/-- **The five shapes of a plan** for an incoming claim and an existing one. -/
inductive PlanShape (new existing : Particle) (trigger : TriggerRef) (plan : ConflictWritePlan) :
    Prop where
  /-- the claim stands beside the existing one -/
  | stand (insert : plan.insert = some new) (demote : plan.demote = none)
      (wrapper : plan.wrapper = none) (events : plan.events = [])
      (cacheAddNew : plan.cacheAddNew = true) (result : plan.result = some new)
  /-- the claim retires the existing one -/
  | replace (p : Particle) (reason : StatusReason) (eventType : OperatorEventType)
      (retired : reason ≠ .CONFLICT_PENDING)
      (id : p.id = new.id) (status : p.status = new.status)
      (supersedes : ∀ id ∈ p.supersedes, id ∈ new.supersedes ∨ id = existing.id)
      (insert : plan.insert = some p) (demote : plan.demote = some (existing.id, reason))
      (wrapper : plan.wrapper = none) (events : plan.events = [⟨eventType, [existing.id, new.id]⟩])
      (cacheAddNew : plan.cacheAddNew = true) (result : plan.result = some p)
  /-- the claim is stored and retired at once -/
  | mirror (reason : StatusReason) (eventType : OperatorEventType)
      (retired : reason ≠ .CONFLICT_PENDING)
      (insert : plan.insert = some new) (demote : plan.demote = some (new.id, reason))
      (wrapper : plan.wrapper = none) (events : plan.events = [⟨eventType, [new.id, existing.id]⟩])
      (cacheAddNew : plan.cacheAddNew = false) (result : plan.result = some (new.demoted reason))
  /-- the claim is dropped -/
  | drop (insert : plan.insert = none) (demote : plan.demote = none)
      (wrapper : plan.wrapper = none)
      (events : plan.events = [⟨.CONFLICT_CANDIDATE_DROPPED, [existing.id]⟩])
      (cacheAddNew : plan.cacheAddNew = false) (result : plan.result = none)
  /-- the claim is held behind a record -/
  | hold (record : Particle) (status : record.status = .INCONSISTENCY)
      (names : (record.provenance.map fun ref => (ref.type, ref.corpusEntryId)) =
        [(.PARTICLE, existing.id), (.PARTICLE, new.id), (trigger.type, trigger.corpusEntryId)])
      (insert : plan.insert = some new.quarantined) (demote : plan.demote = none)
      (wrapper : plan.wrapper = some record) (events : plan.events = [])
      (cacheAddNew : plan.cacheAddNew = false) (result : plan.result = some record)

section Shapes

variable (records : RecordBuilder) (recordId : String) (outcome : LadderOutcome)
  (new existing : Particle) (trigger : TriggerRef)

/-- **Every outcome of the ladder gives one of the five shapes.** -/
theorem planShape_planConflictWrites :
    PlanShape new existing trigger
      (planConflictWrites records recordId outcome new existing trigger) := by
  obtain ⟨_ | verdict, divergence⟩ := outcome
  · exact .stand rfl rfl rfl rfl rfl rfl
  cases verdict with
  | NO_CONFLICT | CORROBORATES => exact .stand rfl rfl rfl rfl rfl rfl
  | SUPERSEDES | DOCUMENT_SUPERSEDES =>
      exact .replace new _ _ (by decide) rfl rfl (fun id hid => Or.inl hid) rfl rfl rfl rfl rfl rfl
  | UPDATE_SUPERSEDES =>
      refine .replace { new with supersedes := new.supersedes.or (some existing.id) } _ _
        (by decide) rfl rfl (fun id hid => ?_) rfl rfl rfl rfl rfl rfl
      rcases Option.or_eq_some_iff.1 hid with hid | ⟨-, hid⟩
      · exact Or.inl hid
      · exact Or.inr (Option.some.inj hid).symm
  | DOCUMENT_SUPERSEDED_BY_EXISTING | UPDATE_SUPERSEDED_BY_EXISTING =>
      exact .mirror _ _ (by decide) rfl rfl rfl rfl rfl rfl
  | SUPERSEDED_BY_EXISTING => exact .drop rfl rfl rfl rfl rfl rfl
  | INCONSISTENT =>
      exact .hold (records.build recordId existing new.quarantined trigger)
        (records.status_build ..) (records.provenance_build ..) rfl rfl rfl rfl rfl rfl

/-- The hold of a re-asserted retired claim is a hold. -/
theorem planShape_planRetiredHold (twin : Particle) :
    PlanShape new twin trigger (planRetiredHold records recordId twin new trigger) :=
  .hold (records.build recordId twin new.quarantined trigger)
    (records.status_build ..) (records.provenance_build ..) rfl rfl rfl rfl rfl rfl

end Shapes

/-! ### Coherence -/

/-- A row that was not there before. -/
def Born (store store' : Store) (row : ParticleRow) : Prop :=
  store.get? row.id = none ∧ store'.get? row.id = some row

/-- A claim that left ACTIVE: a stored one, or one that was stored ACTIVE and demoted at once. -/
def RetiredBy (store store' : Store) (id : String) : Prop :=
  ∃ row', store'.get? id = some row' ∧ row'.model.status ≠ .ACTIVE ∧
    ((∃ row, store.get? id = some row ∧ row.model.status = .ACTIVE) ∨
      store.get? id = none ∧ row'.retiredAt ≠ none)

/-- What a reference names is in the store. -/
def NamesStored (store : Store) (type : ProvenanceRefType) (id : String) : Prop :=
  match type with
  | .PARTICLE => (store.get? id).isSome
  | _ => (store.entries.get? id).isSome

/-- The trigger that a caller passes names the incoming claim itself, or what is stored. -/
def TriggerHeld (store : Store) (new : Particle) (trigger : TriggerRef) : Prop :=
  (trigger.type = .PARTICLE ∧ trigger.corpusEntryId = new.id) ∨
    NamesStored store trigger.type trigger.corpusEntryId

/-- A claim's row with its embedding, where the row is ACTIVE and there is an embedding. -/
def activePair (store : Store) (id : String) (embedding : Option EmbeddingJson) :
    List (Particle × EmbeddingJson) :=
  embedding.toList.flatMap fun emb =>
    ((store.get? id).toList.filter fun row => row.model.status = .ACTIVE).map fun row =>
      (row.model, emb)

/-- **What a plan leaves is in step.** -/
structure Coherent (now : Instant) (store : Store) (new existing : Particle)
    (embedding : Option EmbeddingJson) (caller : PlanCaller) (written : PlanWritten) : Prop where
  /-- at most one claim and at most one record are inserted -/
  inserts : ∀ row row', Born store written.store row → Born store written.store row' →
    (row.model.status = .INCONSISTENCY ↔ row'.model.status = .INCONSISTENCY) → row = row'
  /-- of the stored rows, only the existing claim's changes, and only by a demotion -/
  demotes : ∀ id row, store.get? id = some row → written.store.get? id = some row ∨
    id = existing.id ∧ ∃ reason,
      written.store.get? id = some (row.withStatus now .PROVENANCE_STALE (some reason))
  /-- a record names only what is in the store -/
  names : ∀ record, Born store written.store record → record.model.status = .INCONSISTENCY →
    ∀ ref ∈ record.model.provenance, NamesStored written.store ref.type ref.corpusEntryId
  /-- a claim born for a pending conflict is named by a record -/
  held : ∀ row, Born store written.store row → row.model.status = .PROVENANCE_STALE →
    row.model.statusReason = some .CONFLICT_PENDING →
    ∃ record, Born store written.store record ∧ record.model.status = .INCONSISTENCY ∧
      ∃ ref ∈ record.model.provenance, ref.type = .PARTICLE ∧ ref.corpusEntryId = row.id
  /-- what is returned is what is stored -/
  returned : ∀ p ∈ written.result, ∃ row, written.store.get? p.id = some row ∧
    row.model.status = p.status ∧ row.model.statusReason = p.statusReason
  /-- the claim joins the batch exactly when its row ends ACTIVE and it has an embedding -/
  cached : ∀ cache ∈ caller.candidateCache, ∃ kept : List (Particle × EmbeddingJson),
    kept.Sublist cache ∧
      written.candidateCache = some (kept ++ activePair written.store new.id embedding)
  /-- each retirement is named by one event, with its winner -/
  evented : ∀ id, RetiredBy store written.store id → ∃ event winner,
    (written.events.filter fun event => id ∈ event.refs) = [event] ∧ event.refs = [id, winner] ∧
      ((id = existing.id ∧ winner = new.id) ∨ (id = new.id ∧ winner = existing.id))

section Shaped

variable {now : Instant} {store store' : Store} {new existing : Particle} {trigger : TriggerRef}
  {plan : ConflictWritePlan}

/-- A claim is inserted ACTIVE or in quarantine. -/
theorem PlanShape.insert_status (h : PlanShape new existing trigger plan) (hnew : new.status = .ACTIVE)
    {p : Particle} (hp : p ∈ plan.insert) :
    p.id = new.id ∧ (p.status = .ACTIVE ∨ p = new.quarantined ∧ ∃ record ∈ plan.wrapper,
      ∃ ref ∈ record.provenance, ref.type = .PARTICLE ∧ ref.corpusEntryId = new.id) := by
  cases h with
  | replace q _ _ _ hid hstatus _ hinsert =>
      obtain rfl := Option.some.inj (hinsert.symm.trans hp)
      exact ⟨hid, Or.inl (hstatus.trans hnew)⟩
  | stand hinsert | mirror _ _ _ hinsert =>
      obtain rfl := Option.some.inj (hinsert.symm.trans hp)
      exact ⟨rfl, Or.inl hnew⟩
  | drop hinsert =>
      rw [hinsert] at hp
      cases hp
  | hold record _ hnames hinsert _ hwrapper =>
      obtain rfl := Option.some.inj (hinsert.symm.trans hp)
      refine ⟨rfl, Or.inr ⟨rfl, record, hwrapper, ?_⟩⟩
      -- the second side of the record
      have hmem : (ProvenanceRefType.PARTICLE, new.id) ∈
          record.provenance.map fun ref => (ref.type, ref.corpusEntryId) := by
        rw [hnames]
        simp
      obtain ⟨ref, href, heq⟩ := List.mem_map.1 hmem
      exact ⟨ref, href, (Prod.ext_iff.1 heq).1, (Prod.ext_iff.1 heq).2⟩

/-- A record is an INCONSISTENCY record of the two claims. -/
theorem PlanShape.wrapper_names (h : PlanShape new existing trigger plan) {record : Particle}
    (hrecord : record ∈ plan.wrapper) :
    record.status = .INCONSISTENCY ∧ plan.insert = some new.quarantined ∧ plan.demote = none ∧
      ∀ ref ∈ record.provenance, (ref.type, ref.corpusEntryId) = (.PARTICLE, existing.id) ∨
        (ref.type, ref.corpusEntryId) = (.PARTICLE, new.id) ∨
        (ref.type, ref.corpusEntryId) = (trigger.type, trigger.corpusEntryId) := by
  cases h with
  | hold w hstatus hnames hinsert hdemote hwrapper =>
      obtain rfl := Option.some.inj (hwrapper.symm.trans hrecord)
      refine ⟨hstatus, hinsert, hdemote, fun ref href => ?_⟩
      have hmem := List.mem_map_of_mem (f := fun ref : ProvenanceRef =>
        (ref.type, ref.corpusEntryId)) href
      rw [hnames] at hmem
      simpa using hmem
  | stand _ _ hwrapper | replace _ _ _ _ _ _ _ _ _ hwrapper | mirror _ _ _ _ _ hwrapper
  | drop _ _ hwrapper =>
      rw [hwrapper] at hrecord
      cases hrecord

/-- A demotion is of the existing claim or of the inserted one, and one event tells it. -/
theorem PlanShape.demote_event (h : PlanShape new existing trigger plan) {d : String × StatusReason} (hd : d ∈ plan.demote) :
    d.2 ≠ .CONFLICT_PENDING ∧ ∃ eventType winner, plan.events = [⟨eventType, [d.1, winner]⟩] ∧
      ((d.1 = existing.id ∧ winner = new.id) ∨ (d.1 = new.id ∧ winner = existing.id)) := by
  cases h with
  | replace _ reason eventType hretired _ _ _ _ hdemote _ hevents =>
      obtain rfl := Option.some.inj (hdemote.symm.trans hd)
      exact ⟨hretired, eventType, new.id, hevents, Or.inl ⟨rfl, rfl⟩⟩
  | mirror reason eventType hretired _ hdemote _ hevents =>
      obtain rfl := Option.some.inj (hdemote.symm.trans hd)
      exact ⟨hretired, eventType, existing.id, hevents, Or.inr ⟨rfl, rfl⟩⟩
  | stand _ hdemote | drop _ hdemote | hold _ _ _ _ hdemote =>
      rw [hdemote] at hd
      cases hd

/-- Every retirement is a demotion of the plan. -/
theorem demote_of_retiredBy (happlied : PlanApplied now plan store store') {id : String}
    (h : RetiredBy store store' id) : ∃ d ∈ plan.demote, d.1 = id := by
  obtain ⟨row', hrow', hstatus, ⟨row, hrow, hactive⟩ | ⟨hnone, hretired⟩⟩ := h
  · rcases happlied.kept_or_demoted hrow with hkept | ⟨d, hd, hid, -⟩
    · obtain rfl := Option.some.inj (hkept.symm.trans hrow')
      exact absurd hactive hstatus
    · exact ⟨d, hd, hid⟩
  · obtain rfl := ParticleTable.id_of_get? hrow'
    rcases happlied.born hnone hrow' with
      ⟨p, -, hid, ⟨-, hnever, -⟩ | ⟨d, hd, hdp, -⟩⟩ | ⟨-, -, -, hnever⟩
    · exact absurd hnever hretired
    · exact ⟨d, hd, hdp.trans hid⟩
    · exact absurd hnever hretired

/-- What a plan returns is what it stored. -/
theorem returned_of_applied (hshape : PlanShape new existing trigger plan)
    (happlied : PlanApplied now plan store store') (hne : existing.id ≠ new.id) {p : Particle}
    (hp : p ∈ plan.result) : ∃ row, store'.get? p.id = some row ∧
      row.model.status = p.status ∧ row.model.statusReason = p.statusReason := by
  cases hshape with
  | stand hinsert hdemote _ _ _ hresult =>
      obtain rfl := Option.some.inj (hresult.symm.trans hp)
      obtain ⟨row, rfl, -, hrow, -⟩ := happlied.inserted new hinsert
      exact ⟨row, hrow (by simp [hdemote]), rfl, rfl⟩
  | replace q _ _ _ hid _ _ hinsert hdemote _ _ _ hresult =>
      obtain rfl := Option.some.inj (hresult.symm.trans hp)
      obtain ⟨row, rfl, -, hrow, -⟩ := happlied.inserted q hinsert
      exact ⟨row, hrow (by simp [hdemote, hid, hne]), rfl, rfl⟩
  | mirror _ _ _ hinsert hdemote _ _ _ hresult =>
      obtain rfl := Option.some.inj (hresult.symm.trans hp)
      obtain ⟨row, rfl, -, -, hrow⟩ := happlied.inserted new hinsert
      exact ⟨_, hrow _ hdemote rfl, rfl, rfl⟩
  | drop _ _ _ _ _ hresult =>
      rw [hresult] at hp
      cases hp
  | hold record _ _ _ _ hwrapper _ _ hresult =>
      obtain rfl := Option.some.inj (hresult.symm.trans hp)
      obtain ⟨-, row, rfl, -, hrow⟩ := happlied.recorded record hwrapper
      exact ⟨row, hrow, rfl, rfl⟩

/-- The batch gains the claim's row if that is ACTIVE. -/
theorem cacheAfterPlan_of_applied (hshape : PlanShape new existing trigger plan)
    (hnew : new.status = .ACTIVE) (hfresh : store.get? new.id = none)
    (happlied : PlanApplied now plan store store') (hne : existing.id ≠ new.id)
    (embedding : Option EmbeddingJson) (cache : List (Particle × EmbeddingJson)) :
    cacheAfterPlan plan existing embedding cache =
      cacheKept plan existing cache ++ activePair store' new.id embedding := by
  have hadded : ∀ row : ParticleRow, row.model.status = .ACTIVE → store'.get? new.id = some row →
      plan.cacheAddNew = true → plan.insert = some row.model →
      cacheAfterPlan plan existing embedding cache =
        cacheKept plan existing cache ++ activePair store' new.id embedding := by
    intro row hactive hrow hadd hinsert
    unfold cacheAfterPlan activePair
    rw [hadd, hinsert, hrow]
    cases embedding with
    | none => simp
    | some emb => simp [hactive]
  have hskipped : (∀ row, store'.get? new.id = some row → row.model.status ≠ .ACTIVE) →
      plan.cacheAddNew = false →
      cacheAfterPlan plan existing embedding cache =
        cacheKept plan existing cache ++ activePair store' new.id embedding := by
    intro hretired hadd
    have hnothing : ((store'.get? new.id).toList.filter fun row => row.model.status = .ACTIVE) =
        [] := by
      rw [List.filter_eq_nil_iff]
      intro row hrow
      simpa using hretired row (Option.mem_toList.1 hrow)
    unfold cacheAfterPlan activePair
    rw [hadd, hnothing]
    simp
  cases hshape with
  | stand hinsert hdemote _ _ hadd =>
      obtain ⟨row, rfl, -, hrow, -⟩ := happlied.inserted new hinsert
      exact hadded row hnew (hrow (by simp [hdemote])) hadd hinsert
  | replace q _ _ _ hid hstatus _ hinsert hdemote _ _ hadd =>
      obtain ⟨row, rfl, -, hrow, -⟩ := happlied.inserted q hinsert
      refine hadded row (hstatus.trans hnew) ?_ hadd hinsert
      rw [← hid]
      exact hrow (by simp [hdemote, hid, hne])
  | mirror _ _ _ hinsert hdemote _ _ hadd =>
      obtain ⟨row, -, -, -, hrow⟩ := happlied.inserted new hinsert
      refine hskipped (fun row' hrow' => ?_) hadd
      obtain rfl := Option.some.inj ((hrow _ hdemote rfl).symm.trans hrow')
      simp [ParticleRow.withStatus]
  | drop hinsert hdemote hwrapper _ hadd =>
      refine hskipped (fun row hrow => ?_) hadd
      rw [happlied.other new.id (by simp [hinsert]) (by simp [hdemote]) (by simp [hwrapper]),
        hfresh] at hrow
      cases hrow
  | hold _ _ _ hinsert hdemote _ _ hadd =>
      obtain ⟨row, hmodel, -, hrow, -⟩ := happlied.inserted _ hinsert
      refine hskipped (fun row' hrow' => ?_) hadd
      obtain rfl := Option.some.inj ((hrow (by simp [hdemote])).symm.trans hrow')
      simp [hmodel, Particle.quarantined]

/-- The events of a plan name the existing claim, and the incoming one only if it is inserted. -/
theorem PlanShape.event_refs (h : PlanShape new existing trigger plan) {event : OperatorEvent}
    (hevent : event ∈ plan.events) {id : String} (hid : id ∈ event.refs) :
    id = existing.id ∨ ∃ p ∈ plan.insert, p.id = id := by
  cases h with
  | replace p _ eventType _ hpid _ _ hinsert _ _ hevents =>
      rw [hevents, List.mem_singleton] at hevent
      subst hevent
      rcases List.mem_pair.1 hid with rfl | rfl
      · exact Or.inl rfl
      · exact Or.inr ⟨p, hinsert, hpid⟩
  | mirror _ eventType _ hinsert _ _ hevents =>
      rw [hevents, List.mem_singleton] at hevent
      subst hevent
      rcases List.mem_pair.1 hid with rfl | rfl
      · exact Or.inr ⟨new, hinsert, rfl⟩
      · exact Or.inl rfl
  | drop _ _ _ hevents =>
      rw [hevents, List.mem_singleton] at hevent
      subst hevent
      exact Or.inl (List.mem_singleton.1 hid)
  | stand _ _ _ hevents | hold _ _ _ _ _ _ hevents =>
      rw [hevents] at hevent
      cases hevent

/-- A row that is stored stays stored. -/
theorem PlanApplied.isSome_of_isSome (h : PlanApplied now plan store store') {id : String}
    (hsome : (store.get? id).isSome = true) : (store'.get? id).isSome = true := by
  obtain ⟨row, hrow⟩ := Option.isSome_iff_exists.1 hsome
  rcases h.kept_or_demoted hrow with hrow' | ⟨d, -, -, hrow'⟩ <;> rw [hrow'] <;> rfl

/-- What is inserted is never a record, and a record always is. -/
theorem PlanShape.born_kind (hshape : PlanShape new existing trigger plan)
    (hnew : new.status = .ACTIVE) (happlied : PlanApplied now plan store store') {row : ParticleRow}
    (hborn : Born store store' row) :
    (row.model.status = .INCONSISTENCY ∧ ∃ w ∈ plan.wrapper, row.model = w) ∨
      (row.model.status ≠ .INCONSISTENCY ∧ ∃ p ∈ plan.insert, p.id = row.id) := by
  obtain ⟨hnone, hrow⟩ := hborn
  rcases happlied.born hnone hrow with
    ⟨p, hp, hid, ⟨hmodel, -, -⟩ | ⟨d, -, -, inserted, -, -, rfl⟩⟩ | ⟨w, hw, hmodel, -⟩
  · refine Or.inr ⟨?_, p, hp, hid⟩
    rw [hmodel]
    rcases (hshape.insert_status hnew hp).2 with hactive | ⟨rfl, -⟩
    · simp [hactive]
    · simp [Particle.quarantined]
  · exact Or.inr ⟨by simp [ParticleRow.withStatus], p, hp, hid⟩
  · exact Or.inl ⟨hmodel ▸ (hshape.wrapper_names hw).1, w, hw, hmodel⟩

/-- One claim and one record are inserted at most. -/
theorem PlanShape.born_unique (hshape : PlanShape new existing trigger plan)
    (hnew : new.status = .ACTIVE) (happlied : PlanApplied now plan store store')
    {row row' : ParticleRow} (hborn : Born store store' row) (hborn' : Born store store' row')
    (hsame : row.model.status = .INCONSISTENCY ↔ row'.model.status = .INCONSISTENCY) :
    row = row' := by
  have hid : row.id = row'.id := by
    rcases hshape.born_kind hnew happlied hborn with
        ⟨hstatus, w, hw, hmodel⟩ | ⟨hstatus, p, hp, hid⟩ <;>
      rcases hshape.born_kind hnew happlied hborn' with
        ⟨hstatus', w', hw', hmodel'⟩ | ⟨hstatus', p', hp', hid'⟩
    · obtain rfl := Option.some.inj (hw.symm.trans hw')
      rw [ParticleRow.id, ParticleRow.id, hmodel, hmodel']
    · exact absurd (hsame.1 hstatus) hstatus'
    · exact absurd (hsame.2 hstatus') hstatus
    · obtain rfl := Option.some.inj (hp.symm.trans hp')
      exact hid.symm.trans hid'
  have hrow' := hborn'.2
  rw [← hid] at hrow'
  exact Option.some.inj (hborn.2.symm.trans hrow')

/-- A record names the two claims and the trigger, which are all in the store. -/
theorem PlanShape.namesStored (hshape : PlanShape new existing trigger plan)
    (happlied : PlanApplied now plan store store') (hentries : store'.entries = store.entries)
    (hexisting : (store.get? existing.id).isSome) (htrigger : TriggerHeld store new trigger)
    {w : Particle} (hw : w ∈ plan.wrapper) {ref : ProvenanceRef} (href : ref ∈ w.provenance) :
    NamesStored store' ref.type ref.corpusEntryId := by
  obtain ⟨-, hinsert, hdemote, hnames⟩ := hshape.wrapper_names hw
  obtain ⟨row, -, -, hrow, -⟩ := happlied.inserted _ hinsert
  have hnewStored : (store'.get? new.id).isSome := by
    rw [show store'.get? new.id = some row from hrow (by simp [hdemote])]
    rfl
  rcases hnames ref href with heq | heq | heq <;> obtain ⟨htype, hid⟩ := Prod.mk.inj heq <;>
    rw [htype, hid]
  · exact happlied.isSome_of_isSome hexisting
  · exact hnewStored
  · rcases htrigger with ⟨hparticle, hself⟩ | hstored
    · rw [hparticle, hself]
      exact hnewStored
    · change NamesStored store' trigger.type trigger.corpusEntryId
      cases htriggerType : trigger.type <;>
        simp only [NamesStored, htriggerType, hentries] at hstored ⊢
      · exact hstored
      · exact happlied.isSome_of_isSome hstored
      · exact hstored

/-- A claim that is inserted for a pending conflict is named by the record beside it. -/
theorem PlanShape.held_by_record (hshape : PlanShape new existing trigger plan)
    (hnew : new.status = .ACTIVE) (happlied : PlanApplied now plan store store') {row : ParticleRow}
    (hborn : Born store store' row) (hstale : row.model.status = .PROVENANCE_STALE)
    (hpending : row.model.statusReason = some .CONFLICT_PENDING) :
    ∃ record, Born store store' record ∧ record.model.status = .INCONSISTENCY ∧
      ∃ ref ∈ record.model.provenance, ref.type = .PARTICLE ∧ ref.corpusEntryId = row.id := by
  obtain ⟨hnone, hrow⟩ := hborn
  rcases happlied.born hnone hrow with
    ⟨p, hp, hid, ⟨hmodel, -, -⟩ | ⟨d, hd, -, inserted, -, -, rfl⟩⟩ | ⟨w, hw, hmodel, -⟩
  · obtain ⟨hpid, hactive | ⟨rfl, w, hw, ref, href, htype, hrefid⟩⟩ :=
      hshape.insert_status hnew hp
    · rw [hmodel, hactive] at hstale
      cases hstale
    · obtain ⟨hwnone, record, hrecord, -, hstored⟩ := happlied.recorded w hw
      have hrecordId : record.id = w.id := congrArg Particle.id hrecord
      refine ⟨record, ⟨hrecordId ▸ hwnone, hrecordId ▸ hstored⟩, ?_, ref, ?_, htype, ?_⟩
      · rw [hrecord]
        exact (hshape.wrapper_names hw).1
      · rw [hrecord]
        exact href
      · rw [hrefid, ← hid, hpid]
  · exact absurd (Option.some.inj hpending) (hshape.demote_event hd).1
  · rw [hmodel, (hshape.wrapper_names hw).1] at hstale
    cases hstale

/-- **Applying a plan of one of the shapes is coherent.** -/
theorem coherent_of_shape {contentHash : String → String} {modelId : String}
    {table : TransitionTable} {embedding : Option EmbeddingJson} {caller : PlanCaller}
    {written : PlanWritten} (hshape : PlanShape new existing trigger plan)
    (hnew : new.status = .ACTIVE) (hfresh : store.get? new.id = none)
    (hexisting : (store.get? existing.id).isSome) (htrigger : TriggerHeld store new trigger)
    (h : applyPlan contentHash modelId table now store plan existing embedding caller =
      .ok written) : Coherent now store new existing embedding caller written := by
  simp only [applyPlan, bind_eq_ok] at h
  obtain ⟨store', happly, hwritten⟩ := h
  obtain rfl := Except.ok.inj hwritten
  have hentries : store'.entries = store.entries := entries_applyConflictPlan happly
  have happlied : PlanApplied now plan store store' := by
    obtain ⟨hf, hi, hd, hr, ho⟩ := get?_applyConflictPlan happly
    exact ⟨hf, hi, hd, hr, ho⟩
  have hne : existing.id ≠ new.id := by
    intro heq
    rw [heq, hfresh] at hexisting
    cases hexisting
  refine ⟨fun row row' hborn hborn' hsame => hshape.born_unique hnew happlied hborn hborn' hsame,
    fun id row hrow => ?_, fun record hborn hrecord ref href => ?_,
    fun row hborn hstale hpending => hshape.held_by_record hnew happlied hborn hstale hpending,
    fun p hp => returned_of_applied hshape happlied hne hp, fun cache hcache => ?_,
    fun id hretired => ?_⟩
  · rcases happlied.kept_or_demoted hrow with hkept | ⟨d, hd, rfl, hrow'⟩
    · exact Or.inl hkept
    · obtain ⟨-, -, -, -, ⟨hid, -⟩ | ⟨hid, -⟩⟩ := hshape.demote_event hd
      · exact Or.inr ⟨hid, d.2, hrow'⟩
      · -- the incoming claim was not stored
        rw [hid, hfresh] at hrow
        cases hrow
  · rcases hshape.born_kind hnew happlied hborn with ⟨-, w, hw, hmodel⟩ | ⟨hnot, -⟩
    · exact hshape.namesStored happlied hentries hexisting htrigger hw (hmodel ▸ href)
    · exact absurd hrecord hnot
  · refine ⟨cacheKept plan existing cache, ?_, ?_⟩
    · unfold cacheKept
      split_ifs
      · exact List.filter_sublist
      · exact List.Sublist.refl cache
    · change caller.candidateCache.map _ = _
      rw [Option.mem_def.1 hcache, Option.map_some,
        cacheAfterPlan_of_applied hshape hnew hfresh happlied hne]
  · obtain ⟨d, hd, rfl⟩ := demote_of_retiredBy happlied hretired
    obtain ⟨-, eventType, winner, hevents, hpair⟩ := hshape.demote_event hd
    refine ⟨⟨eventType, [d.1, winner]⟩, winner, ?_, rfl, hpair⟩
    change plan.events.filter _ = _
    simp [hevents]

end Shaped

section Ladder

variable (records : RecordBuilder) {contentHash : String → String} {modelId : String}
  {table : TransitionTable} {now : Instant} {store : Store} (recordId : String)
  (outcome : LadderOutcome) {new existing : Particle} {trigger : TriggerRef}
  {embedding : Option EmbeddingJson} {caller : PlanCaller} {written : PlanWritten}

/-- The hold of a re-asserted retired claim is coherent too. -/
theorem coherent_planRetiredHold (hnew : new.status = .ACTIVE)
    (hfresh : store.get? new.id = none) (hexisting : (store.get? existing.id).isSome)
    (htrigger : TriggerHeld store new trigger)
    (h : applyPlan contentHash modelId table now store
      (planRetiredHold records recordId existing new trigger) existing embedding caller =
      .ok written) : Coherent now store new existing embedding caller written :=
  coherent_of_shape (planShape_planRetiredHold ..) hnew hfresh hexisting htrigger h

end Ladder

end ParticlesEngine
