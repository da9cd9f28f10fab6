/-
**From a verdict to writes.**

The conflict ladder decides one pair of claims, an existing one and a new one; `conflict_plan.py`
says what each verdict means for the store, and the pipeline performs the plan: insert, demote,
record.  The ladder itself is in the core package, so a verdict enters here as a given.

Main definitions:

* `ConflictVerdict`, `LadderOutcome` — what the ladder decides;
* `RecordBuilder` — the constructor of INCONSISTENCY records, of the core package;
* `ConflictWritePlan`, `planConflictWrites`, `planRetiredHold` — the plans;
* `applyConflictPlan` — the writes of a plan;
* `holdRetiredReassertion` — a re-asserted retired claim is held, or recorded on its hold.

Main results:

* `get?_applyConflictPlan` — **what the writes of a plan leave at every id**;
* `PlanApplied` — the same, as one statement for each kind of write.
-/

import ParticlesEngine.DuplicateSuppression
import ParticlesEngine.RelationStore

set_option relaxedAutoImplicit false
set_option autoImplicit false

namespace ParticlesEngine

/-- What the ladder decided for one pair. -/
inductive ConflictVerdict where
  | NO_CONFLICT
  | CORROBORATES
  | SUPERSEDES
  | SUPERSEDED_BY_EXISTING
  | DOCUMENT_SUPERSEDES
  | DOCUMENT_SUPERSEDED_BY_EXISTING
  | UPDATE_SUPERSEDES
  | UPDATE_SUPERSEDED_BY_EXISTING
  | INCONSISTENT
  deriving DecidableEq, Repr

/-- The decision on a pair; without a verdict the observer precondition declined it. -/
structure LadderOutcome where
  verdict : Option ConflictVerdict
  recordDivergence : Bool := false
  deriving DecidableEq, Repr

/-- The reference that triggered a record: the first source, else the particle itself. -/
structure TriggerRef where
  corpusEntryId : String
  snapshotId : String
  type : ProvenanceRefType := .SOURCE
  deriving DecidableEq, Repr

/-- `_trigger_ref_for`. -/
def triggerRefFor (p : Particle) : TriggerRef :=
  match p.provenance.find? fun ref => ref.type = .SOURCE with
  | some ref => ⟨ref.corpusEntryId, ref.snapshotId.getD "", .SOURCE⟩
  | none => ⟨p.id, "", .PARTICLE⟩

/-- `build_inconsistency_particle` of the core package, given the id it draws: the record that names
the two sides of a conflict. -/
structure RecordBuilder where
  build : String → Particle → Particle → TriggerRef → Particle
  id_build : ∀ recordId existing new trigger, (build recordId existing new trigger).id = recordId
  status_build : ∀ recordId existing new trigger,
    (build recordId existing new trigger).status = .INCONSISTENCY
  /-- the existing claim, the new one, and the trigger -/
  provenance_build : ∀ recordId existing new trigger,
    ((build recordId existing new trigger).provenance.map fun ref =>
      (ref.type, ref.corpusEntryId)) =
      [(.PARTICLE, existing.id), (.PARTICLE, new.id), (trigger.type, trigger.corpusEntryId)]

/-- A record as the tests describe it. -/
def RecordBuilder.documented : RecordBuilder where
  build recordId existing new trigger :=
    { id := recordId
      content := s!"Conflict with {existing.id}: {existing.content} / {new.content}"
      confidence := min existing.confidence new.confidence
      assertedBy := "extract-pipeline"
      status := .INCONSISTENCY
      subjectIds := if existing.subjectIds = [] then new.subjectIds else existing.subjectIds
      provenance := [{ type := .PARTICLE, corpusEntryId := existing.id },
        { type := .PARTICLE, corpusEntryId := new.id },
        { type := trigger.type, corpusEntryId := trigger.corpusEntryId,
          snapshotId := some trigger.snapshotId }] }
  id_build _ _ _ _ := rfl
  status_build _ _ _ _ := rfl
  provenance_build _ _ _ _ := rfl

/-! ### Events -/

/-- The kinds of operator events that the modelled writes record. -/
inductive OperatorEventType where
  | UPDATE_SUPERSESSION
  | TRUST_SUPERSESSION
  | DOCUMENT_SUPERSESSION
  | CONFLICT_CANDIDATE_DROPPED
  | PARTICLE_ASSERTED
  | PARTICLE_SUPERSEDED
  | OBSERVER_SCOPE_WIDENED
  | CORPUS_ENTRY_DELETED
  | INCONSISTENCY_CLOSED
  | HELD_CLAIM_EXAMINED
  deriving DecidableEq, Repr

/-- An operator event, with the particles it names. -/
structure OperatorEvent where
  eventType : OperatorEventType
  refs : List String
  deriving DecidableEq, Repr

/-- `plan_update_event`. -/
def planUpdateEvent (retiredId winnerId : String) : OperatorEvent :=
  ⟨.UPDATE_SUPERSESSION, [retiredId, winnerId]⟩

/-- `plan_retirement_event`. -/
def planRetirementEvent (retiredId winnerId : String) (eventType : OperatorEventType) :
    OperatorEvent :=
  ⟨eventType, [retiredId, winnerId]⟩

/-! ### Plans -/

/-- Every store effect of one ladder outcome, in apply order. -/
structure ConflictWritePlan where
  insert : Option Particle := none
  demote : Option (String × StatusReason) := none
  wrapper : Option Particle := none
  /-- the audited drop of a candidate -/
  droppedEvent : Option OperatorEvent := none
  /-- the retirement by an update, and that by trust or by a document -/
  updateEvent : Option OperatorEvent := none
  retirementEvent : Option OperatorEvent := none
  recordDivergence : Bool := false
  /-- the existing claim leaves the pass's candidates -/
  cacheDropExisting : Bool := false
  /-- the inserted claim joins them -/
  cacheAddNew : Bool := false
  /-- what the pipeline returns for the pair -/
  result : Option Particle := none
  deriving DecidableEq

section Plans

variable (records : RecordBuilder)

/-- The candidate as it is born in quarantine. -/
def Particle.quarantined (p : Particle) : Particle :=
  { p with status := .PROVENANCE_STALE, statusReason := some .CONFLICT_PENDING }

/-- `_demoted`. -/
def Particle.demoted (p : Particle) (reason : StatusReason) : Particle :=
  { p with status := .PROVENANCE_STALE, statusReason := some reason }

/-- `plan_quarantine`: the quarantined candidate and the record that names it. -/
def planQuarantine (recordId : String) (existing new : Particle) (trigger : TriggerRef) :
    Particle × Particle :=
  (new.quarantined, records.build recordId existing new.quarantined trigger)

/-- **`plan_retired_hold`.** -/
def planRetiredHold (recordId : String) (twin new : Particle) (trigger : TriggerRef) :
    ConflictWritePlan :=
  let (held, wrapper) := planQuarantine records recordId twin new trigger
  { insert := some held, wrapper := some wrapper, result := some wrapper }

/-- **`plan_conflict_writes`.** -/
def planConflictWrites (recordId : String) (outcome : LadderOutcome) (new existing : Particle)
    (trigger : TriggerRef) : ConflictWritePlan :=
  match outcome.verdict with
  | none =>
      -- declined: the candidate stands beside the existing claim
      { insert := some new
        recordDivergence := outcome.recordDivergence
        cacheAddNew := true
        result := some new }
  | some .CORROBORATES => { insert := some new, cacheAddNew := true, result := some new }
  | some .SUPERSEDES =>
      { insert := some new
        demote := some (existing.id, .LOWER_TRUST_SOURCE)
        retirementEvent := some (planRetirementEvent existing.id new.id .TRUST_SUPERSESSION)
        cacheDropExisting := true
        cacheAddNew := true
        result := some new }
  | some .SUPERSEDED_BY_EXISTING =>
      -- the candidate is never stored, so the event does not name it
      { droppedEvent := some ⟨.CONFLICT_CANDIDATE_DROPPED, [existing.id]⟩ }
  | some .DOCUMENT_SUPERSEDES =>
      { insert := some new
        demote := some (existing.id, .DOCUMENT_SUPERSEDED)
        retirementEvent := some (planRetirementEvent existing.id new.id .DOCUMENT_SUPERSESSION)
        cacheDropExisting := true
        cacheAddNew := true
        result := some new }
  | some .DOCUMENT_SUPERSEDED_BY_EXISTING =>
      -- the mirror stores the loser and then demotes it
      { insert := some new
        demote := some (new.id, .DOCUMENT_SUPERSEDED)
        retirementEvent := some (planRetirementEvent new.id existing.id .DOCUMENT_SUPERSESSION)
        result := some (new.demoted .DOCUMENT_SUPERSEDED) }
  | some .UPDATE_SUPERSEDES =>
      -- the newer claim names the one it replaces, unless it names one already
      let minted := { new with supersedes := new.supersedes.or (some existing.id) }
      { insert := some minted
        demote := some (existing.id, .SUPERSEDED_BY_UPDATE)
        updateEvent := some (planUpdateEvent existing.id minted.id)
        cacheDropExisting := true
        cacheAddNew := true
        result := some minted }
  | some .UPDATE_SUPERSEDED_BY_EXISTING =>
      { insert := some new
        demote := some (new.id, .SUPERSEDED_BY_UPDATE)
        updateEvent := some (planUpdateEvent new.id existing.id)
        result := some (new.demoted .SUPERSEDED_BY_UPDATE) }
  | some .INCONSISTENT =>
      let (quarantined, wrapper) := planQuarantine records recordId existing new trigger
      { insert := some quarantined, wrapper := some wrapper, result := some wrapper }
  | some .NO_CONFLICT => { insert := some new, cacheAddNew := true, result := some new }

end Plans

section PlanFacts

variable {records : RecordBuilder} {recordId : String} {outcome : LadderOutcome}
  {new existing p : Particle} {trigger : TriggerRef}

/-- What the ladder inserts beside a claim is a record. -/
theorem status_wrapper_planConflictWrites
    (hp : p ∈ (planConflictWrites records recordId outcome new existing trigger).wrapper) :
    p.status = .INCONSISTENCY := by
  unfold planConflictWrites at hp
  split at hp <;> cases hp
  exact records.status_build ..

/-- What is inserted ACTIVE, and not demoted at once, is the result. -/
theorem result_planConflictWrites_of_insert
    (hp : p ∈ (planConflictWrites records recordId outcome new existing trigger).insert)
    (hactive : p.status = .ACTIVE)
    (hdemote : ∀ d ∈ (planConflictWrites records recordId outcome new existing trigger).demote,
      d.1 ≠ p.id) :
    (planConflictWrites records recordId outcome new existing trigger).result = some p := by
  obtain ⟨_ | verdict, divergence⟩ := outcome
  · exact hp
  cases verdict with
  | SUPERSEDED_BY_EXISTING => cases hp
  | INCONSISTENT =>
      obtain rfl := Option.some.inj hp
      cases hactive
  | DOCUMENT_SUPERSEDED_BY_EXISTING | UPDATE_SUPERSEDED_BY_EXISTING =>
      -- the mirrors demote what they insert
      obtain rfl := Option.some.inj hp
      exact absurd rfl (hdemote _ rfl)
  | _ => exact hp

/-- A result that is ACTIVE is what was inserted. -/
theorem insert_planConflictWrites_of_result
    (hp : p ∈ (planConflictWrites records recordId outcome new existing trigger).result)
    (hactive : p.status = .ACTIVE) :
    (planConflictWrites records recordId outcome new existing trigger).insert = some p := by
  obtain ⟨_ | verdict, divergence⟩ := outcome
  · exact hp
  cases verdict with
  | SUPERSEDED_BY_EXISTING => cases hp
  | INCONSISTENT =>
      obtain rfl := Option.some.inj hp
      simp [records.status_build] at hactive
  | DOCUMENT_SUPERSEDED_BY_EXISTING | UPDATE_SUPERSEDED_BY_EXISTING =>
      obtain rfl := Option.some.inj hp
      cases hactive
  | _ => exact hp

end PlanFacts

/-! ### Applying a plan -/

section Apply

variable (contentHash : String → String) (modelId : String) (table : TransitionTable)

/-- `validate_transition(None, status)` and `insert_particle`, in that order. -/
def insertValidated (store : Store) (p : Particle) (embedding : Option EmbeddingJson) :
    Except StoreError Store := do
  require (table.allows none p.status) (.invalidBirth p.status)
  insertParticle contentHash modelId store p embedding

/-- `insertValidated`, when there is something to insert. -/
def insertPlanned (store : Store) (p : Option Particle) (embedding : Option EmbeddingJson) :
    Except StoreError Store :=
  match p with
  | none => .ok store
  | some p => insertValidated contentHash modelId table store p embedding

/-- The demotion of a plan. -/
def demotePlanned (now : Instant) (store : Store) (demote : Option (String × StatusReason)) :
    Except StoreError Store :=
  match demote with
  | none => .ok store
  | some (id, reason) => updateParticleStatus table now store id .PROVENANCE_STALE (some reason)

/-- **`_apply_conflict_plan`**: the store and the event recorded. -/
def applyConflictPlan (now : Instant) (store : Store) (plan : ConflictWritePlan)
    (existing : Particle) (embedding : Option EmbeddingJson) : Except StoreError Store := do
  let store ← insertPlanned contentHash modelId table store plan.insert embedding
  let store ← demotePlanned table now store plan.demote
  let store ← insertPlanned contentHash modelId table store plan.wrapper none
  match plan.recordDivergence, plan.insert with
  | true, some p => recordObserverDivergence store p.id existing.id
  | _, _ => return store

/-- What a caller gives the apply step beside the plan. -/
structure PlanCaller where
  /-- the claims of a batch, with their embeddings -/
  candidateCache : Option (List (Particle × EmbeddingJson)) := none
  /-- an observer gate is open -/
  observer : Bool := false
  deriving DecidableEq

/-- What applying a plan leaves: the store, the events recorded, the batch's claims, and the
particle returned. -/
structure PlanWritten where
  store : Store
  events : List OperatorEvent
  candidateCache : Option (List (Particle × EmbeddingJson))
  result : Option Particle
  deriving DecidableEq

/-- The batch's claims that a plan keeps. -/
def cacheKept (plan : ConflictWritePlan) (existing : Particle)
    (cache : List (Particle × EmbeddingJson)) : List (Particle × EmbeddingJson) :=
  if plan.cacheDropExisting then cache.filter fun pair => pair.1.id ≠ existing.id else cache

/-- The batch's claims after a plan. -/
def cacheAfterPlan (plan : ConflictWritePlan) (existing : Particle)
    (embedding : Option EmbeddingJson) (cache : List (Particle × EmbeddingJson)) :
    List (Particle × EmbeddingJson) :=
  match plan.cacheAddNew, plan.insert, embedding with
  | true, some p, some emb => cacheKept plan existing cache ++ [(p, emb)]
  | _, _, _ => cacheKept plan existing cache

/-- The events of a plan, in the order in which they are recorded. -/
def ConflictWritePlan.events (plan : ConflictWritePlan) : List OperatorEvent :=
  plan.updateEvent.toList ++ plan.retirementEvent.toList ++ plan.droppedEvent.toList

/-- `_apply_conflict_plan` with everything it touches: without an observer no divergence is
recorded. -/
def applyPlan (now : Instant) (store : Store) (plan : ConflictWritePlan) (existing : Particle)
    (embedding : Option EmbeddingJson) (caller : PlanCaller) : Except StoreError PlanWritten := do
  let observed := { plan with recordDivergence := plan.recordDivergence && caller.observer }
  let store ← applyConflictPlan contentHash modelId table now store observed existing embedding
  return {
    store := store
    events := plan.events
    candidateCache := caller.candidateCache.map (cacheAfterPlan plan existing embedding)
    result := plan.result }

/-- **`_hold_retired_reassertion`**: the observation is recorded on an open hold; a claim that a
person retired is held again, behind a record. -/
def holdRetiredReassertion (records : RecordBuilder) (recordId : String) (now : Instant)
    (store : Store) (particle : Particle) (embedding : Option EmbeddingJson) (twin : Particle)
    (trigger : TriggerRef) : Except StoreError (Store × Option Particle) := do
  if twin.isPendingHold then
    return (appendProvenanceRefs store twin.id particle.provenance, some twin)
  let plan := planRetiredHold records recordId twin particle trigger
  let store ← applyConflictPlan contentHash modelId table now store plan twin embedding
  return (store, plan.result)

end Apply

/-! ### What a plan leaves -/

section Specs

variable {contentHash : String → String} {modelId : String} {table : TransitionTable}
  {now : Instant} {store store' : Store} {embedding : Option EmbeddingJson}

/-- A re-assertion is recorded on its open hold, or a plan holds it. -/
theorem holdRetiredReassertion_eq_ok {records : RecordBuilder} {recordId : String}
    {particle twin : Particle} {trigger : TriggerRef} {held : Store × Option Particle}
    (h : holdRetiredReassertion contentHash modelId table records recordId now store particle
      embedding twin trigger = .ok held) :
    (twin.isPendingHold = true ∧
      held = (appendProvenanceRefs store twin.id particle.provenance, some twin)) ∨
    (twin.isPendingHold = false ∧ ∃ store',
      applyConflictPlan contentHash modelId table now store
        (planRetiredHold records recordId twin particle trigger) twin embedding = .ok store' ∧
      held = (store', (planRetiredHold records recordId twin particle trigger).result)) := by
  unfold holdRetiredReassertion at h
  cases hpending : twin.isPendingHold with
  | true =>
      rw [hpending, if_pos rfl] at h
      exact Or.inl ⟨rfl, (Except.ok.inj h).symm⟩
  | false =>
      rw [hpending, if_neg Bool.false_ne_true] at h
      obtain ⟨store', happly, hpair⟩ := bind_eq_ok.1 h
      exact Or.inr ⟨rfl, store', happly, (Except.ok.inj hpair).symm⟩

/-- A planned insertion adds a row for its particle, and touches no other id. -/
theorem get?_insertPlanned {p : Option Particle}
    (h : insertPlanned contentHash modelId table store p embedding = .ok store') :
    (∀ q ∈ p, store.get? q.id = none ∧ ∃ row : ParticleRow, row.model = q ∧
      row.retiredAt = none ∧ store'.get? q.id = some row) ∧
    ∀ id, (∀ q ∈ p, q.id ≠ id) → store'.get? id = store.get? id := by
  cases p with
  | none =>
      obtain rfl := Except.ok.inj h
      exact ⟨by simp, fun _ _ => rfl⟩
  | some q =>
      simp only [insertPlanned, insertValidated, bind_eq_ok] at h
      obtain ⟨-, -, hinsert⟩ := h
      obtain ⟨hnone, -, row, hmodel, hretired, -, -, hget⟩ := get?_insertParticle hinsert
      refine ⟨fun q' hq' => ?_, fun id hid => ?_⟩
      · obtain rfl := Option.some.inj hq'
        exact ⟨hnone, row, hmodel, hretired, by rw [hget, if_pos rfl]⟩
      · rw [hget, if_neg (hid q rfl)]

/-- A planned demotion moves an ACTIVE row to PROVENANCE_STALE, and touches no other id. -/
theorem get?_demotePlanned {demote : Option (String × StatusReason)}
    (h : demotePlanned table now store demote = .ok store') :
    (∀ d ∈ demote, ∃ row, store.get? d.1 = some row ∧ row.model.status = .ACTIVE ∧
      store'.get? d.1 = some (row.withStatus now .PROVENANCE_STALE (some d.2))) ∧
    ∀ id, (∀ d ∈ demote, d.1 ≠ id) → store'.get? id = store.get? id := by
  cases demote with
  | none =>
      obtain rfl := Except.ok.inj h
      exact ⟨by simp, fun _ _ => rfl⟩
  | some d =>
      obtain ⟨row, hrow, hallows, hget⟩ := get?_updateParticleStatus h
      have hactive : row.model.status = .ACTIVE := table.to_stale hallows
      refine ⟨fun d' hd' => ?_, fun id hid => ?_⟩
      · obtain rfl := Option.some.inj hd'
        exact ⟨row, hrow, hactive, by rw [hget, if_pos rfl]⟩
      · rw [hget, if_neg (hid d rfl)]

/-- What the writes of a plan leave, id by id. -/
structure PlanApplied (now : Instant) (plan : ConflictWritePlan) (store store' : Store) :
    Prop where
  fresh : ∀ p ∈ plan.insert, store.get? p.id = none
  /-- the inserted row stands, unless the plan demotes it -/
  inserted : ∀ p ∈ plan.insert, ∃ row : ParticleRow, row.model = p ∧ row.retiredAt = none ∧
    ((∀ d ∈ plan.demote, d.1 ≠ p.id) → store'.get? p.id = some row) ∧
    ∀ d ∈ plan.demote, d.1 = p.id →
      store'.get? p.id = some (row.withStatus now .PROVENANCE_STALE (some d.2))
  demoted : ∀ d ∈ plan.demote, (∀ p ∈ plan.insert, p.id ≠ d.1) →
    ∃ row, store.get? d.1 = some row ∧ row.model.status = .ACTIVE ∧
      store'.get? d.1 = some (row.withStatus now .PROVENANCE_STALE (some d.2))
  recorded : ∀ p ∈ plan.wrapper, store.get? p.id = none ∧
    ∃ row : ParticleRow, row.model = p ∧ row.retiredAt = none ∧ store'.get? p.id = some row
  other : ∀ id, (∀ p ∈ plan.insert, p.id ≠ id) → (∀ d ∈ plan.demote, d.1 ≠ id) →
    (∀ p ∈ plan.wrapper, p.id ≠ id) → store'.get? id = store.get? id

/-- **What the writes of a plan leave at every id.** -/
theorem get?_applyConflictPlan {plan : ConflictWritePlan} {existing : Particle}
    (h : applyConflictPlan contentHash modelId table now store plan existing embedding =
      .ok store') : PlanApplied now plan store store' := by
  simp only [applyConflictPlan, bind_eq_ok] at h
  obtain ⟨s₁, hinsert, s₂, hdemote, s₃, hwrapper, hrest⟩ := h
  have hget : store'.get? = s₃.get? := by
    -- a divergence is a relation
    split at hrest
    · rw [recordObserverDivergence_eq hrest]
      rfl
    · obtain rfl := Except.ok.inj hrest
      rfl
  obtain ⟨hins, hins'⟩ := get?_insertPlanned hinsert
  obtain ⟨hdem, hdem'⟩ := get?_demotePlanned hdemote
  obtain ⟨hwrap, hwrap'⟩ := get?_insertPlanned hwrapper
  -- a record is new, so it is neither the inserted nor the demoted particle
  have hwrapNe : ∀ id, s₂.get? id ≠ none → ∀ w ∈ plan.wrapper, w.id ≠ id := by
    rintro id hid w hw rfl
    exact hid (hwrap w hw).1
  refine ⟨fun p hp => (hins p hp).1, fun p hp => ?_, fun d hd hne => ?_, fun w hw => ?_,
    fun id hi hd hw => ?_⟩
  · obtain ⟨-, row, hmodel, hretired, hrow⟩ := hins p hp
    refine ⟨row, hmodel, hretired, fun hnot => ?_, fun d hd hid => ?_⟩
    · have hrow₂ : s₂.get? p.id = some row := (hdem' p.id hnot).trans hrow
      rw [hget, hwrap' p.id (hwrapNe p.id (by simp [hrow₂])), hrow₂]
    · obtain ⟨row', hrow', -, hrow₂⟩ := hdem d hd
      rw [hid] at hrow' hrow₂
      obtain rfl : row' = row := Option.some.inj (hrow'.symm.trans hrow)
      rw [hget, hwrap' p.id (hwrapNe p.id (by simp [hrow₂])), hrow₂]
  · obtain ⟨row, hrow, hactive, hrow₂⟩ := hdem d hd
    refine ⟨row, (hins' d.1 hne).symm.trans hrow, hactive, ?_⟩
    rw [hget, hwrap' d.1 (hwrapNe d.1 (by simp [hrow₂])), hrow₂]
  · obtain ⟨hnone, row, hmodel, hretired, hrow⟩ := hwrap w hw
    refine ⟨?_, row, hmodel, hretired, by rw [hget, hrow]⟩
    -- what is missing after the insert and the demotion was missing before
    by_contra hsome
    have hne : ∀ p ∈ plan.insert, p.id ≠ w.id := by
      rintro p hp hid
      exact hsome (hid ▸ (hins p hp).1)
    have hne' : ∀ d ∈ plan.demote, d.1 ≠ w.id := by
      rintro d hd hid
      obtain ⟨row', -, -, hrow'⟩ := hdem d hd
      rw [hid, hnone] at hrow'
      cases hrow'
    rw [hdem' w.id hne', hins' w.id hne] at hnone
    exact hsome hnone
  · rw [hget, hwrap' id hw, hdem' id hd, hins' id hi]

/-- The corpus is not touched. -/
theorem entries_applyConflictPlan {plan : ConflictWritePlan} {existing : Particle}
    (h : applyConflictPlan contentHash modelId table now store plan existing embedding =
      .ok store') : store'.entries = store.entries := by
  have hinsert : ∀ {s s' : Store} {p : Option Particle} {embedding : Option EmbeddingJson},
      insertPlanned contentHash modelId table s p embedding = .ok s' → s'.entries = s.entries := by
    intro s s' p embedding h
    cases p with
    | none =>
        obtain rfl := Except.ok.inj h
        rfl
    | some p =>
        simp only [insertPlanned, insertValidated, bind_eq_ok] at h
        obtain ⟨-, -, h⟩ := h
        exact entries_insertParticle h
  simp only [applyConflictPlan, bind_eq_ok] at h
  obtain ⟨s₁, h₁, s₂, h₂, s₃, h₃, hrest⟩ := h
  have hdemote : s₂.entries = s₁.entries := by
    cases hd : plan.demote with
    | none =>
        rw [hd] at h₂
        obtain rfl := Except.ok.inj h₂
        rfl
    | some d =>
        rw [hd] at h₂
        exact entries_updateParticleStatus h₂
  rw [← hinsert h₁, ← hdemote, ← hinsert h₃]
  split at hrest
  · rw [recordObserverDivergence_eq hrest]
  · obtain rfl := Except.ok.inj hrest
    rfl

/-- A stored row stays as it is, unless the plan demotes it. -/
theorem PlanApplied.kept_or_demoted {plan : ConflictWritePlan} {id : String} {row : ParticleRow}
    (h : PlanApplied now plan store store') (hrow : store.get? id = some row) :
    store'.get? id = some row ∨ ∃ d ∈ plan.demote, d.1 = id ∧
      store'.get? id = some (row.withStatus now .PROVENANCE_STALE (some d.2)) := by
  -- what is stored is neither inserted nor a record
  have hold : ∀ {k : String}, store.get? k = none → k ≠ id := by
    rintro k hk rfl
    exact absurd (hk.symm.trans hrow) (by simp)
  have hinsert : ∀ p ∈ plan.insert, p.id ≠ id := fun p hp => hold (h.fresh p hp)
  by_cases hdemote : ∃ d ∈ plan.demote, d.1 = id
  · obtain ⟨d, hd, rfl⟩ := hdemote
    obtain ⟨row', hrow', -, hdemoted⟩ := h.demoted d hd hinsert
    obtain rfl := Option.some.inj (hrow.symm.trans hrow')
    exact Or.inr ⟨d, hd, rfl, hdemoted⟩
  · refine Or.inl ?_
    rw [h.other id hinsert (fun d hd hid => hdemote ⟨d, hd, hid⟩)
      (fun w hw => hold (h.recorded w hw).1), hrow]

/-- A new row is what the plan inserts, as it is or demoted, or its record. -/
theorem PlanApplied.born {plan : ConflictWritePlan} {row : ParticleRow}
    (h : PlanApplied now plan store store') (hnone : store.get? row.id = none)
    (hrow : store'.get? row.id = some row) :
    (∃ p ∈ plan.insert, p.id = row.id ∧
      ((row.model = p ∧ row.retiredAt = none ∧ ∀ d ∈ plan.demote, d.1 ≠ p.id) ∨
        ∃ d ∈ plan.demote, d.1 = p.id ∧ ∃ inserted : ParticleRow, inserted.model = p ∧
          inserted.retiredAt = none ∧
          row = inserted.withStatus now .PROVENANCE_STALE (some d.2))) ∨
      ∃ w ∈ plan.wrapper, row.model = w ∧ row.retiredAt = none := by
  by_cases hinsert : ∃ p ∈ plan.insert, p.id = row.id
  · obtain ⟨p, hp, hid⟩ := hinsert
    obtain ⟨inserted, hmodel, hretired, hstands, hdemoted⟩ := h.inserted p hp
    refine Or.inl ⟨p, hp, hid, ?_⟩
    by_cases hdemote : ∃ d ∈ plan.demote, d.1 = p.id
    · obtain ⟨d, hd, hdp⟩ := hdemote
      have hstored := hdemoted d hd hdp
      rw [hid, hrow] at hstored
      exact Or.inr ⟨d, hd, hdp, inserted, hmodel, hretired, Option.some.inj hstored⟩
    · have hnot : ∀ d ∈ plan.demote, d.1 ≠ p.id := fun d hd hdp => hdemote ⟨d, hd, hdp⟩
      have hstored := hstands hnot
      rw [hid, hrow] at hstored
      obtain rfl := Option.some.inj hstored
      exact Or.inl ⟨hmodel, hretired, hnot⟩
  · refine Or.inr ?_
    by_contra hwrapper
    have hother := h.other row.id (fun p hp hid => hinsert ⟨p, hp, hid⟩) ?_ ?_
    · rw [hnone, hrow] at hother
      cases hother
    · rintro d hd hid
      obtain ⟨stored, hstored, -⟩ := h.demoted d hd
        (fun p hp hpd => hinsert ⟨p, hp, hpd.trans hid⟩)
      rw [hid, hnone] at hstored
      cases hstored
    · rintro w hw hid
      obtain ⟨-, record, hmodel, hretired, hrecord⟩ := h.recorded w hw
      rw [hid, hrow] at hrecord
      obtain rfl := Option.some.inj hrecord
      exact hwrapper ⟨w, hw, hmodel, hretired⟩

end Specs

end ParticlesEngine
