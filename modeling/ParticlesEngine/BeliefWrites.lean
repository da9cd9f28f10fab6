/-
**Belief writes.**

`assert_belief` and `supersede_belief` write one belief of an agent or of the operator: the candidate
goes through the cheap rungs and the conflict search as the store stands when the writes run, and the
verdict is rebuilt afterwards from the candidate's id and the particle that came back.

Main definitions:

* `applyReconcile` — the half of a reconciling write that runs under the writer lock;
* `applyBelief`, `mapResult` — the candidate of a belief write, and the verdict on it;
* `assertBelief`, `supersedeBelief` — the two verbs;
* `ReportsStored` — a write reports only what it stored.

Main results:

* `routeCheapRungs_cases` — what the cheap rungs say of the store;
* `reportsStored_iff` — **a write reports only what it stored exactly when the store holds no live twin
  of the candidate and no open hold of it**;
* `not_reportsStored_suppressed` — asserting a stored belief again reports an id that is not stored.
-/

import ParticlesEngine.PlanCoherence
import ParticlesEngine.SearchUnderLock

set_option relaxedAutoImplicit false
set_option autoImplicit false

namespace ParticlesEngine

/-! ### `apply_reconcile` -/

/-- What the probes and the ladder answer, and the ids and the instant that the write draws. -/
structure ReconcileAnswers where
  /-- the ladder's decision, by the existing claim -/
  outcome : Particle → LadderOutcome
  recordId : String
  now : Instant
  speaker : Option SpeakerKey := none

/-- What the write paths are configured with. -/
structure ReconcileEnv where
  ingest : IngestEnv
  table : TransitionTable := .documented
  records : RecordBuilder := .documented

section Reconcile

variable (env : ReconcileEnv)

/-- The candidate is inserted as it is, and joins the caller's batch unless it is off the conflict
surface. -/
def insertCandidate (store : Store) (particle : Particle) (embedding : Option Embedding)
    (caller : PlanCaller) (batched : Bool) : Except StoreError PlanWritten := do
  let store ← insertValidated env.ingest.core.contentHash env.ingest.currentId env.table store
    particle embedding
  return {
    store := store
    events := []
    candidateCache := caller.candidateCache.map fun cache =>
      if batched ∧ particle.status = .ACTIVE then
        cache ++ embedding.toList.map fun emb => (particle, emb)
      else cache
    result := some particle }

/-- **`apply_reconcile`.** -/
def applyReconcile (db : Database) (particle : Particle) (gathered : ReconcileGather)
    (answers : ReconcileAnswers) (caller : PlanCaller) : Except StoreError PlanWritten :=
  match routeCheapRungs env.ingest.core env.ingest.cfg db.store particle [] with
  | (.UNCHECKED, _) => insertCandidate env db.store particle gathered.embedding caller false
  | (.SUPPRESS, some target) =>
      .ok {
        store := appendProvenanceRefs db.store target.id particle.provenance
        events := []
        candidateCache := caller.candidateCache
        result := some target }
  | (.RETIRED_TWIN, some twin) => do
      let held ← holdRetiredReassertion env.ingest.core.contentHash env.ingest.currentId env.table
        env.records answers.recordId answers.now db.store particle gathered.embedding twin
        (triggerRefFor particle)
      return {
        store := held.1, events := [], candidateCache := caller.candidateCache, result := held.2 }
  | (.INSERT, _) =>
      -- the search again, on the store as it stands under the lock
      match applyConflict env.ingest db answers.speaker particle gathered with
      | none => insertCandidate env db.store particle gathered.embedding caller true
      | some target =>
          applyPlan env.ingest.core.contentHash env.ingest.currentId env.table answers.now db.store
            (planConflictWrites env.records answers.recordId (answers.outcome target) particle target
              (triggerRefFor particle))
            target gathered.embedding caller
  | _ => .error .assertion

end Reconcile

/-! ### The verbs -/

/-- The verdict of a belief write. -/
inductive AgentVerdict where
  | DROPPED_LOWER_TRUST
  | INCONSISTENCY_RAISED
  | HELD_FOR_REVIEW
  | SUPERSEDED_PRIOR
  | ASSERTED
  deriving DecidableEq, Repr

/-- The status that is reported: a status, or the reason of a held belief. -/
inductive ReportedStatus where
  | status (s : Status)
  | reason (r : StatusReason)
  deriving DecidableEq, Repr

/-- `AgentWriteResult`. -/
structure AgentWriteResult where
  assertedParticleId : Option String
  verdict : AgentVerdict
  supersededParticleId : Option String := none
  status : Option ReportedStatus := none
  inconsistencyId : Option String := none
  deriving DecidableEq, Repr

/-- **`_map_result`.** -/
def mapResult (candidateId : String) (returned : Option Particle) (reportSupersession : Bool) :
    AgentWriteResult :=
  match returned with
  | none => { assertedParticleId := none, verdict := .DROPPED_LOWER_TRUST }
  | some returned =>
      if returned.status = .INCONSISTENCY then
        { assertedParticleId := some candidateId
          verdict := .INCONSISTENCY_RAISED
          status := some (.reason .CONFLICT_PENDING)
          inconsistencyId := some returned.id }
      else if returned.status = .PROVENANCE_STALE ∧ returned.statusReason = some .CONFLICT_PENDING then
        { assertedParticleId := some returned.id
          verdict := .HELD_FOR_REVIEW
          status := some (.reason .CONFLICT_PENDING) }
      -- Python's truth test: an empty id names no predecessor
      else if reportSupersession ∧ returned.status = .ACTIVE ∧
          (returned.supersedes.filter (· ≠ "")).isSome then
        { assertedParticleId := some candidateId
          verdict := .SUPERSEDED_PRIOR
          status := some (.status returned.status)
          supersededParticleId := returned.supersedes }
      else
        { assertedParticleId := some candidateId
          verdict := .ASSERTED
          status := some (.status returned.status) }

/-- One call of a verb: the belief as the gather drafted it, what the gather found, and what the
writes before the reconciliation settle. -/
structure BeliefCall where
  /-- the UUID that the draft draws -/
  id : String
  content : String
  confidence : NNRat
  assertedBy : String
  assertedAt : Instant
  /-- the subjects given, and those that the names resolve to -/
  subjectIds : List String
  /-- the source: the excerpt deposited, or the entry cited -/
  entryId : String
  snapshotId : String
  gathered : ReconcileGather
  answers : ReconcileAnswers
  /-- the other tables once subjects are minted, the source deposited and the author's trust seeded -/
  tables : Store
  /-- the ownership guards of `_load_mutable_target` -/
  mayChange : Particle → Bool := fun _ => true
  /-- the predecessor's widening carries over to a successor in force -/
  widen : Bool := false

/-- The candidate of a call. -/
def BeliefCall.candidate (call : BeliefCall) (supersedes : Option String) : Particle where
  id := call.id
  content := call.content
  confidence := call.confidence
  assertedBy := call.assertedBy
  assertedAt := call.assertedAt
  subjectIds := call.subjectIds
  supersedes := supersedes
  provenance := [{ type := .SOURCE, corpusEntryId := call.entryId,
                   snapshotId := some call.snapshotId }]

/-- What a verb leaves. -/
structure BeliefWritten where
  store : Store
  events : List OperatorEvent
  result : AgentWriteResult
  deriving DecidableEq

section Verbs

variable (env : ReconcileEnv)

/-- **`_apply_belief`**: the candidate's id, and what the reconciliation wrote. -/
def applyBelief (db : Database) (call : BeliefCall) (supersedes : Option String) :
    Except StoreError (String × PlanWritten) := do
  let db := { db with store := { call.tables with particles := db.store.particles } }
  let particle := call.candidate supersedes
  let written ← applyReconcile env db particle call.gathered call.answers
    { candidateCache := none, observer := true }
  return (particle.id, written)

/-- **`assert_belief`**, its writes. -/
def assertBelief (db : Database) (call : BeliefCall) : Except StoreError BeliefWritten := do
  let (candidateId, written) ← applyBelief env db call none
  let asserted : OperatorEvent :=
    ⟨.PARTICLE_ASSERTED, if written.result.isSome then [candidateId] else []⟩
  return {
    store := written.store
    events := written.events ++ [asserted]
    result := mapResult candidateId written.result true }

/-- `add_widening` of a particle, once. -/
def addWidening (store : Store) (particleId : String) : Store :=
  { store with
    scopeStatements := (store.scopeStatements.insert? ⟨.PARTICLE, particleId⟩).getD
      store.scopeStatements }

/-- **`supersede_belief`**, its writes: the predecessor is retired first. -/
def supersedeBelief (db : Database) (supersedesId : String) (call : BeliefCall) :
    Except StoreError BeliefWritten := do
  let predecessor ← orRaise (db.store.get? supersedesId) (.notFound supersedesId)
  require (predecessor.model.status = .ACTIVE ∧ call.mayChange predecessor.model = true)
    (.notMutable supersedesId)
  let store ← updateParticleStatus env.table call.answers.now db.store supersedesId .SUPERSEDED
    (some .EXPLICIT_SUPERSESSION)
  let (candidateId, written) ← applyBelief env { db with store := store } call (some supersedesId)
  -- a successor held for review has not replaced anything yet
  let carried : Bool := call.widen ∧
    (written.store.get? candidateId).any fun row => row.model.status = .ACTIVE
  let store := if carried then addWidening written.store candidateId else written.store
  let widened : List OperatorEvent :=
    if carried then [⟨.OBSERVER_SCOPE_WIDENED, [candidateId]⟩] else []
  let superseded : OperatorEvent :=
    ⟨.PARTICLE_SUPERSEDED, supersedesId :: if written.result.isSome then [candidateId] else []⟩
  return {
    store := store
    events := written.events ++ widened ++ [superseded]
    result := mapResult candidateId written.result false }

end Verbs

/-- The two verbs. -/
inductive BeliefVerb where
  | assertBelief
  | supersedeBelief (supersedesId : String)

section Verb

variable (env : ReconcileEnv)

/-- The writes of a verb. -/
def BeliefVerb.run (db : Database) (call : BeliefCall) :
    BeliefVerb → Except StoreError BeliefWritten
  | .assertBelief => ParticlesEngine.assertBelief env db call
  | .supersedeBelief supersedesId => ParticlesEngine.supersedeBelief env db supersedesId call

/-- The predecessor that a verb names. -/
def BeliefVerb.supersedes : BeliefVerb → Option String
  | .assertBelief => none
  | .supersedeBelief supersedesId => some supersedesId

/-- The store when the candidate is reconciled: its predecessor is retired. -/
def BeliefVerb.reconciled (store : Store) (call : BeliefCall) : BeliefVerb → Store
  | .assertBelief => store
  | .supersedeBelief supersedesId =>
      store.setStatus call.answers.now supersedesId .SUPERSEDED (some .EXPLICIT_SUPERSESSION)

end Verb

/-! ### The property -/

/-- The row has the reported status. -/
def ReportedStatus.Matches (row : ParticleRow) : ReportedStatus → Prop
  | .status s => row.model.status = s
  | .reason r => row.model.status = .PROVENANCE_STALE ∧ row.model.statusReason = some r

/-- What a result says is in the store; `before` is the store before the call. -/
structure ResultStored (before store : Store) (result : AgentWriteResult) : Prop where
  /-- the belief's id is stored, with the reported status and reason -/
  asserted : ∀ id ∈ result.assertedParticleId, ∃ row, store.get? id = some row ∧
    ∃ status ∈ result.status, status.Matches row
  /-- the record is stored, and refers to the belief -/
  inconsistency : ∀ id ∈ result.inconsistencyId, ∃ row, store.get? id = some row ∧
    row.model.status = .INCONSISTENCY ∧ ∃ belief ∈ result.assertedParticleId,
      ∃ ref ∈ row.model.provenance, ref.type = .PARTICLE ∧ ref.corpusEntryId = belief
  /-- a replaced prior belief was retired by this call -/
  superseded : result.verdict = .SUPERSEDED_PRIOR → ∃ id ∈ result.supersededParticleId,
    (∃ row, before.get? id = some row ∧ row.model.status = .ACTIVE) ∧
      ∃ row, store.get? id = some row ∧ row.model.status ≠ .ACTIVE

/-- **A write reports only what it stored**, in its result and in its events. -/
structure ReportsStored (before : Store) (write : BeliefWritten) : Prop where
  result : ResultStored before write.store write.result
  events : ∀ event ∈ write.events, ∀ id ∈ event.refs, (write.store.get? id).isSome = true

/-! ### The verdicts -/

section Verdicts

variable {before store : Store} {candidateId : String} {returned : Particle} {row : ParticleRow}
  {report : Bool}

theorem resultStored_none :
    ResultStored before store (mapResult candidateId none report) :=
  ⟨by simp [mapResult], by simp [mapResult], by simp [mapResult]⟩

/-- A supersession that the caller asked for is not a verdict. -/
theorem verdict_mapResult_false {returned : Option Particle} :
    (mapResult candidateId returned false).verdict ≠ .SUPERSEDED_PRIOR := by
  cases returned with
  | none => simp [mapResult]
  | some returned =>
      unfold mapResult
      simp only [Bool.false_eq_true, false_and, if_false]
      split_ifs <;> simp

/-- The belief is in force. -/
theorem resultStored_of_active (hactive : returned.status = .ACTIVE)
    (hrow : store.get? candidateId = some row) (hstatus : row.model.status = .ACTIVE)
    (hprior : report = true → ∀ id ∈ returned.supersedes,
      (∃ row, before.get? id = some row ∧ row.model.status = .ACTIVE) ∧
        ∃ row, store.get? id = some row ∧ row.model.status ≠ .ACTIVE) :
    ResultStored before store (mapResult candidateId (some returned) report) := by
  have hmap : mapResult candidateId (some returned) report =
      if report = true ∧ (returned.supersedes.filter (· ≠ "")).isSome then
        { assertedParticleId := some candidateId, verdict := .SUPERSEDED_PRIOR
          status := some (.status .ACTIVE), supersededParticleId := returned.supersedes }
      else
        { assertedParticleId := some candidateId, verdict := .ASSERTED
          status := some (.status .ACTIVE) } := by
    simp [mapResult, hactive]
  have hasserted : ∀ id ∈ some candidateId, ∃ row, store.get? id = some row ∧
      ∃ status ∈ some (ReportedStatus.status .ACTIVE), status.Matches row := by
    intro id hid
    obtain rfl := Option.some.inj hid
    exact ⟨row, hrow, _, rfl, hstatus⟩
  rw [hmap]
  split_ifs with hsupersedes
  · obtain ⟨id, hid⟩ := Option.isSome_iff_exists.1 hsupersedes.2
    have hid : returned.supersedes = some id := (Option.filter_eq_some_iff.1 hid).1
    exact ⟨hasserted, by simp, fun _ => ⟨id, hid, hprior hsupersedes.1 id hid⟩⟩
  · exact ⟨hasserted, by simp, by simp⟩

/-- The belief was retired as it was stored. -/
theorem resultStored_of_stale (hstale : returned.status = .PROVENANCE_STALE)
    (hreason : returned.statusReason ≠ some .CONFLICT_PENDING)
    (hrow : store.get? candidateId = some row) (hstatus : row.model.status = .PROVENANCE_STALE) :
    ResultStored before store (mapResult candidateId (some returned) report) := by
  have hmap : mapResult candidateId (some returned) report =
      { assertedParticleId := some candidateId, verdict := .ASSERTED
        status := some (.status .PROVENANCE_STALE) } := by
    simp [mapResult, hstale, hreason]
  rw [hmap]
  refine ⟨fun id hid => ?_, by simp, by simp⟩
  obtain rfl := Option.some.inj hid
  exact ⟨row, hrow, _, rfl, hstatus⟩

/-- The belief is held behind a record. -/
theorem resultStored_of_record {record : ParticleRow} (hrecord : returned.status = .INCONSISTENCY)
    (hstored : store.get? returned.id = some record) (hmodel : record.model = returned)
    (hnames : ∃ ref ∈ returned.provenance, ref.type = .PARTICLE ∧ ref.corpusEntryId = candidateId)
    (hrow : store.get? candidateId = some row)
    (hheld : row.model.status = .PROVENANCE_STALE ∧
      row.model.statusReason = some .CONFLICT_PENDING) :
    ResultStored before store (mapResult candidateId (some returned) report) := by
  have hmap : mapResult candidateId (some returned) report =
      { assertedParticleId := some candidateId, verdict := .INCONSISTENCY_RAISED
        status := some (.reason .CONFLICT_PENDING), inconsistencyId := some returned.id } := by
    simp [mapResult, hrecord]
  rw [hmap]
  refine ⟨fun id hid => ?_, fun id hid => ?_, by simp⟩
  · obtain rfl := Option.some.inj hid
    exact ⟨row, hrow, _, rfl, hheld⟩
  · obtain rfl := Option.some.inj hid
    refine ⟨record, hstored, hmodel ▸ hrecord, candidateId, rfl, ?_⟩
    rw [hmodel]
    exact hnames

end Verdicts

/-! ### What the reconciliation reports -/

section Plan

variable {now : Instant} {store store' : Store} {new existing : Particle} {trigger : TriggerRef}
  {plan : ConflictWritePlan}

/-- What is inserted is stored. -/
theorem PlanApplied.isSome_inserted (h : PlanApplied now plan store store') {p : Particle}
    (hp : p ∈ plan.insert) : (store'.get? p.id).isSome = true := by
  obtain ⟨row, -, -, hstands, hdemoted⟩ := h.inserted p hp
  by_cases hdemote : ∃ d ∈ plan.demote, d.1 = p.id
  · obtain ⟨d, hd, hid⟩ := hdemote
    rw [hdemoted d hd hid]
    rfl
  · rw [hstands fun d hd hid => hdemote ⟨d, hd, hid⟩]
    rfl

/-- **The verdict on a plan tells what the plan stored.** -/
theorem resultStored_of_plan (hshape : PlanShape new existing trigger plan)
    (happlied : PlanApplied now plan store store') (hnew : new.status = .ACTIVE)
    (hne : existing.id ≠ new.id) (report : Bool) (hreport : report = true → new.supersedes = none) :
    ResultStored store store' (mapResult new.id plan.result report) := by
  cases hshape with
  | stand hinsert hdemote _ _ _ hresult =>
      obtain ⟨row, hmodel, -, hrow, -⟩ := happlied.inserted new hinsert
      rw [hresult]
      refine resultStored_of_active hnew (hrow (by simp [hdemote])) (hmodel ▸ hnew) ?_
      intro hr id hid
      rw [hreport hr] at hid
      cases hid
  | replace q reason _ _ hid hstatus hsupersedes hinsert hdemote _ _ _ hresult =>
      obtain ⟨row, hmodel, -, hrow, -⟩ := happlied.inserted q hinsert
      have hstored := hrow (by simp [hdemote, hid, hne])
      rw [hid] at hstored
      rw [hresult]
      refine resultStored_of_active (hstatus.trans hnew) hstored
        (by rw [hmodel, hstatus, hnew]) ?_
      intro hr id hprior
      -- the only predecessor is the claim that this plan retires
      rcases hsupersedes id hprior with hgiven | rfl
      · rw [hreport hr] at hgiven
        cases hgiven
      · have hother : ∀ p ∈ plan.insert, p.id ≠ existing.id := by
          intro p hp
          obtain rfl := Option.some.inj (hinsert.symm.trans hp)
          rw [hid]
          exact hne.symm
        obtain ⟨row', hrow', hactive, hdemoted⟩ := happlied.demoted _ hdemote hother
        exact ⟨⟨row', hrow', hactive⟩, _, hdemoted, by simp [ParticleRow.withStatus]⟩
  | mirror reason _ hpending hinsert hdemote _ _ _ hresult =>
      obtain ⟨row, -, -, -, hrow⟩ := happlied.inserted new hinsert
      rw [hresult]
      refine resultStored_of_stale rfl ?_ (hrow _ hdemote rfl) rfl
      simpa [Particle.demoted] using hpending
  | drop _ _ _ _ _ hresult =>
      rw [hresult]
      exact resultStored_none
  | hold record hrecord hnames hinsert hdemote hwrapper _ _ hresult =>
      obtain ⟨row, hmodel, -, hrow, -⟩ := happlied.inserted _ hinsert
      obtain ⟨-, recordRow, hrecordModel, -, hrecordRow⟩ := happlied.recorded record hwrapper
      have hmem : (ProvenanceRefType.PARTICLE, new.id) ∈
          record.provenance.map fun ref => (ref.type, ref.corpusEntryId) := by
        rw [hnames]
        simp
      obtain ⟨ref, href, heq⟩ := List.mem_map.1 hmem
      rw [hresult]
      refine resultStored_of_record hrecord hrecordRow hrecordModel
        ⟨ref, href, (Prod.mk.inj heq).1, (Prod.mk.inj heq).2⟩ (hrow (by simp [hdemote])) ?_
      rw [hmodel]
      exact ⟨rfl, rfl⟩

/-- A plan that returns something stored the incoming claim. -/
theorem isSome_of_result (hshape : PlanShape new existing trigger plan)
    (happlied : PlanApplied now plan store store') (hresult : plan.result.isSome = true) :
    (store'.get? new.id).isSome = true := by
  cases hshape with
  | stand hinsert | mirror _ _ _ hinsert => exact happlied.isSome_inserted hinsert
  | replace q _ _ _ hid _ _ hinsert =>
      rw [← hid]
      exact happlied.isSome_inserted hinsert
  | hold _ _ _ hinsert => exact happlied.isSome_inserted (p := new.quarantined) hinsert
  | drop _ _ _ _ _ hnone =>
      rw [hnone] at hresult
      cases hresult

/-- The events of a plan name stored particles. -/
theorem isSome_of_event (hshape : PlanShape new existing trigger plan)
    (happlied : PlanApplied now plan store store') (hexisting : (store.get? existing.id).isSome = true)
    {event : OperatorEvent} (hevent : event ∈ plan.events) {id : String} (hid : id ∈ event.refs) :
    (store'.get? id).isSome = true := by
  rcases hshape.event_refs hevent hid with rfl | ⟨p, hp, rfl⟩
  · exact happlied.isSome_of_isSome hexisting
  · exact happlied.isSome_inserted hp

end Plan

section Rungs

variable {env : ReconcileEnv} {store : Store} {particle : Particle}

/-- The candidate would be suppressed into a live twin. -/
def WouldSuppress (env : ReconcileEnv) (store : Store) (particle : Particle) : Prop :=
  env.ingest.cfg.duplicateSuppression = true ∧ HasLiveTwin env.ingest.core store particle

/-- The candidate would be absorbed by an open hold. -/
def WouldAbsorb (env : ReconcileEnv) (store : Store) (particle : Particle) : Prop :=
  env.ingest.cfg.retiredValueQuarantine = true ∧ HasOpenHold env.ingest.core store particle

instance (env : ReconcileEnv) (store : Store) (particle : Particle) :
    Decidable (WouldSuppress env store particle) := by
  unfold WouldSuppress
  infer_instance

instance (env : ReconcileEnv) (store : Store) (particle : Particle) :
    Decidable (WouldAbsorb env store particle) := by
  unfold WouldAbsorb
  infer_instance

/-- An index that is built only when it is switched on. -/
theorem find_ite {enabled : Bool} {index : DuplicateIndex} {q : Particle} :
    (if enabled then index else {}).find env.ingest.core particle = some q ↔
      enabled = true ∧ index.find env.ingest.core particle = some q := by
  cases enabled <;> simp

/-- **What the cheap rungs say of the store**: a live twin, a retired one that is held open or was
judged, or neither. -/
theorem routeCheapRungs_cases (env : ReconcileEnv) (store : Store) (particle : Particle) :
    let result := routeCheapRungs env.ingest.core env.ingest.cfg store particle []
    (∃ twin, result = (.SUPPRESS, some twin) ∧ WouldSuppress env store particle) ∨
    (∃ twin, result = (.RETIRED_TWIN, some twin) ∧ ¬ WouldSuppress env store particle ∧
      (twin.isPendingHold = true ↔ WouldAbsorb env store particle) ∧
      (store.get? twin.id).isSome = true) ∨
    ((result = (.UNCHECKED, none) ∨ result = (.INSERT, none)) ∧
      ¬ WouldSuppress env store particle ∧ ¬ WouldAbsorb env store particle) := by
  intro result
  obtain ⟨dups, hdups⟩ : ∃ dups, dups = (if env.ingest.cfg.duplicateSuppression then
    buildDuplicateIndex env.ingest.core store [particle.content] [] else {}) := ⟨_, rfl⟩
  obtain ⟨retired, hretired⟩ : ∃ retired, retired = (if env.ingest.cfg.retiredValueQuarantine then
    buildRetiredValueIndex env.ingest.core store [particle.content] [] else {}) := ⟨_, rfl⟩
  have hresult : result = routeParticle env.ingest.core particle dups retired none [] := by
    rw [hdups, hretired]
    rfl
  have hsuppress : (∃ q, dups.find env.ingest.core particle = some q) ↔
      WouldSuppress env store particle := by
    simp only [hdups, find_ite, WouldSuppress, ← isSome_find_buildDuplicateIndex,
      Option.isSome_iff_exists, exists_and_left]
  have habsorb : (∃ q, retired.find env.ingest.core particle = some q ∧ q.isPendingHold = true) ↔
      WouldAbsorb env store particle := by
    simp only [hretired, find_ite, WouldAbsorb, ← find_buildRetiredValueIndex_isPendingHold,
      and_assoc, exists_and_left]
  rw [hresult]
  rcases routeParticle_cases env.ingest.core particle dups retired none [] with
    ⟨hskip, hroute⟩ | ⟨twin, hfind, hroute⟩ | ⟨hnone, twin, hfind, hroute⟩ |
      ⟨hnone, hnone', hroute⟩
  · refine Or.inr (Or.inr ⟨Or.inl hroute, ?_, ?_⟩)
    · rw [← hsuppress, find_eq_none_of_skips hskip]
      simp
    · rw [← habsorb, find_eq_none_of_skips hskip]
      simp
  · exact Or.inl ⟨twin, hroute, hsuppress.1 ⟨twin, hfind⟩⟩
  · refine Or.inr (Or.inl ⟨twin, hroute, ?_, ?_, ?_⟩)
    · rw [← hsuppress, hnone]
      simp
    · rw [← habsorb, hfind]
      simp
    · rw [hretired, find_ite] at hfind
      exact isSome_get?_of_find_buildRetiredValueIndex hfind.2
  · refine Or.inr (Or.inr ⟨Or.inr ?_, ?_, ?_⟩)
    · rcases hroute with hroute | ⟨c, hc, -⟩
      · exact hroute
      · cases hc
    · rw [← hsuppress, hnone]
      simp
    · rw [← habsorb, hnone']
      simp

end Rungs

/-- What a reconciliation leaves when it stores the candidate, or drops it. -/
structure Reconciled (store : Store) (particle : Particle) (written : PlanWritten) : Prop where
  result : ∀ report, (report = true → particle.supersedes = none) →
    ResultStored store written.store (mapResult particle.id written.result report)
  events : ∀ event ∈ written.events, ∀ id ∈ event.refs, (written.store.get? id).isSome = true
  candidate : written.result.isSome = true → (written.store.get? particle.id).isSome = true
  keeps : ∀ id, (store.get? id).isSome = true → (written.store.get? id).isSome = true

section Spec

variable {env : ReconcileEnv} {store : Store} {particle existing : Particle} {trigger : TriggerRef}
  {plan : ConflictWritePlan} {written : PlanWritten}

theorem reconciled_insertCandidate {embedding : Option Embedding} {caller : PlanCaller}
    {batched : Bool} (hactive : particle.status = .ACTIVE)
    (h : insertCandidate env store particle embedding caller batched = .ok written) :
    Reconciled store particle written := by
  simp only [insertCandidate, insertValidated, bind_eq_ok] at h
  obtain ⟨store', ⟨-, -, hinsert⟩, hwritten⟩ := h
  obtain rfl := Except.ok.inj hwritten
  obtain ⟨hnone, -, row, hmodel, -, -, -, hget⟩ := get?_insertParticle hinsert
  have hrow : store'.get? particle.id = some row := by rw [hget, if_pos rfl]
  refine ⟨fun report hreport => ?_, by simp, fun _ => by rw [hrow]; rfl, fun id hid => ?_⟩
  · refine resultStored_of_active hactive hrow (hmodel ▸ hactive) fun hr id hid => ?_
    rw [hreport hr] at hid
    cases hid
  · change (store'.get? id).isSome = true
    rw [hget]
    split_ifs
    · rfl
    · exact hid

theorem reconciled_of_plan {now : Instant} {store' : Store} {events : List OperatorEvent}
    {cache : Option (List (Particle × EmbeddingJson))}
    (hshape : PlanShape particle existing trigger plan)
    (happlied : PlanApplied now plan store store') (hactive : particle.status = .ACTIVE)
    (hfresh : store.get? particle.id = none) (hexisting : (store.get? existing.id).isSome = true)
    (hevents : ∀ event ∈ events, event ∈ plan.events) :
    Reconciled store particle ⟨store', events, cache, plan.result⟩ := by
  have hne : existing.id ≠ particle.id := by
    intro heq
    rw [heq, hfresh] at hexisting
    cases hexisting
  exact ⟨resultStored_of_plan hshape happlied hactive hne,
    fun event hevent id hid => isSome_of_event hshape happlied hexisting (hevents event hevent) hid,
    isSome_of_result hshape happlied, fun _ => happlied.isSome_of_isSome⟩

/-- **What a reconciliation leaves**: nothing of the candidate where a live twin or an open hold takes
its provenance, and otherwise a store that the verdict tells of. -/
theorem applyReconcile_spec {db : Database} {gathered : ReconcileGather}
    {answers : ReconcileAnswers} {caller : PlanCaller} (hactive : particle.status = .ACTIVE)
    (hfresh : db.store.get? particle.id = none)
    (h : applyReconcile env db particle gathered answers caller = .ok written) :
    ((WouldSuppress env db.store particle ∨ WouldAbsorb env db.store particle) ∧
      written.result.isSome = true ∧ written.store.get? particle.id = none) ∨
    (¬ WouldSuppress env db.store particle ∧ ¬ WouldAbsorb env db.store particle ∧
      Reconciled db.store particle written) := by
  unfold applyReconcile at h
  -- a fold into another row stores nothing under the candidate's id
  have hunstored : ∀ target : String,
      (appendProvenanceRefs db.store target particle.provenance).get? particle.id = none := by
    intro target
    rw [get?_appendProvenanceRefs, hfresh]
    simp
  rcases routeCheapRungs_cases env db.store particle with
    ⟨twin, hroute, hsuppress⟩ | ⟨twin, hroute, hnot, habsorb, hstored⟩ |
      ⟨hroute | hroute, hnot, hnot'⟩
  · rw [hroute] at h
    obtain rfl := Except.ok.inj h
    exact Or.inl ⟨Or.inl hsuppress, rfl, hunstored twin.id⟩
  · rw [hroute] at h
    simp only [bind_eq_ok] at h
    obtain ⟨held, hheld, hwritten⟩ := h
    obtain rfl := Except.ok.inj hwritten
    rcases holdRetiredReassertion_eq_ok hheld with ⟨hpending, rfl⟩ | ⟨hpending, store', happly, rfl⟩
    · exact Or.inl ⟨Or.inr (habsorb.1 hpending), rfl, hunstored twin.id⟩
    · refine Or.inr ⟨hnot, fun habsorbed => by simp [habsorb.2 habsorbed] at hpending, ?_⟩
      exact reconciled_of_plan (planShape_planRetiredHold env.records answers.recordId particle
        (triggerRefFor particle) twin) (get?_applyConflictPlan happly) hactive hfresh hstored
        (by simp)
  · rw [hroute] at h
    exact Or.inr ⟨hnot, hnot', reconciled_insertCandidate hactive h⟩
  · rw [hroute] at h
    refine Or.inr ⟨hnot, hnot', ?_⟩
    simp only at h
    split at h
    · exact reconciled_insertCandidate hactive h
    · next target htarget =>
        simp only [applyPlan, bind_eq_ok] at h
        obtain ⟨store', happly, hwritten⟩ := h
        obtain rfl := Except.ok.inj hwritten
        -- the claim found under the lock is stored
        obtain ⟨pair, hpair, rfl⟩ := mem_of_nearestConflict htarget
        obtain ⟨row, hrow, hmodel, -⟩ := exists_row_of_mem_pairsUnderLock hpair
        have hexisting : (db.store.get? pair.1.id).isSome = true := by
          rw [show db.store.get? pair.1.id = some row by
            rw [← hmodel]
            exact ParticleTable.get?_id hrow]
          rfl
        have happlied := get?_applyConflictPlan happly
        exact reconciled_of_plan (planShape_planConflictWrites ..)
          ⟨happlied.fresh, happlied.inserted, happlied.demoted, happlied.recorded,
            happlied.other⟩ hactive hfresh hexisting fun _ hevent => hevent

end Spec

/-! ### The two verbs -/

section Verbs

variable {env : ReconcileEnv} {db : Database} {call : BeliefCall} {write : BeliefWritten}

/-- What `_apply_belief` leaves, in terms of the store it found. -/
theorem applyBelief_spec {supersedes : Option String} {candidateId : String} {written : PlanWritten}
    (hfresh : db.store.get? call.id = none)
    (h : applyBelief env db call supersedes = .ok (candidateId, written)) :
    candidateId = call.id ∧
    (((WouldSuppress env db.store (call.candidate supersedes) ∨
        WouldAbsorb env db.store (call.candidate supersedes)) ∧
      written.result.isSome = true ∧ written.store.get? call.id = none) ∨
    (¬ WouldSuppress env db.store (call.candidate supersedes) ∧
      ¬ WouldAbsorb env db.store (call.candidate supersedes) ∧
      Reconciled db.store (call.candidate supersedes) written)) := by
  simp only [applyBelief, bind_eq_ok] at h
  obtain ⟨written', hreconcile, hpair⟩ := h
  obtain ⟨rfl, rfl⟩ := Prod.mk.inj (Except.ok.inj hpair)
  refine ⟨rfl, ?_⟩
  -- the other tables say nothing of the particles
  rcases applyReconcile_spec rfl hfresh hreconcile with hfolded | ⟨hnot, hnot', hresult, hevents, hcandidate, hkeeps⟩
  · exact Or.inl hfolded
  · refine Or.inr ⟨hnot, hnot', fun report hreport => ?_, hevents, hcandidate, hkeeps⟩
    obtain ⟨hasserted, hinconsistency, hsuperseded⟩ := hresult report hreport
    exact ⟨hasserted, hinconsistency, hsuperseded⟩

theorem reportsStored_assertBelief (hfresh : db.store.get? call.id = none)
    (h : assertBelief env db call = .ok write) :
    ReportsStored db.store write ↔ ¬ WouldSuppress env db.store (call.candidate none) ∧
      ¬ WouldAbsorb env db.store (call.candidate none) := by
  simp only [assertBelief, bind_eq_ok] at h
  obtain ⟨⟨candidateId, written⟩, hbelief, hwrite⟩ := h
  obtain rfl := Except.ok.inj hwrite
  obtain ⟨rfl, ⟨hfolded, hsome, hnone⟩ | ⟨hnot, hnot', hreconciled⟩⟩ :=
    applyBelief_spec hfresh hbelief
  · -- the event names a candidate that is not stored
    refine iff_of_false (fun hreports => ?_) (by tauto)
    have hstored := hreports.events ⟨.PARTICLE_ASSERTED, [call.id]⟩ (by simp [hsome]) call.id (by simp)
    rw [hnone] at hstored
    cases hstored
  · refine iff_of_true ⟨hreconciled.result true fun _ => rfl, fun event hevent id hid => ?_⟩
      ⟨hnot, hnot'⟩
    rcases List.mem_append.1 hevent with hevent | hevent
    · exact hreconciled.events event hevent id hid
    · obtain rfl := List.mem_singleton.1 hevent
      simp only at hid
      split_ifs at hid with hsome
      · obtain rfl := List.mem_singleton.1 hid
        exact hreconciled.candidate hsome
      · cases hid

theorem reportsStored_supersedeBelief {supersedesId : String}
    (hfresh : db.store.get? call.id = none)
    (h : supersedeBelief env db supersedesId call = .ok write) :
    let retired := db.store.setStatus call.answers.now supersedesId .SUPERSEDED
      (some .EXPLICIT_SUPERSESSION)
    ReportsStored db.store write ↔
      ¬ WouldSuppress env retired (call.candidate (some supersedesId)) ∧
        ¬ WouldAbsorb env retired (call.candidate (some supersedesId)) := by
  intro retired
  simp only [supersedeBelief, bind_eq_ok, orRaise_eq_ok] at h
  obtain ⟨predecessor, hpredecessor, -, -, store, hretire, ⟨candidateId, written⟩, hbelief, hwrite⟩ := h
  obtain rfl := Except.ok.inj hwrite
  obtain ⟨-, -, -, -, rfl⟩ := updateParticleStatus_eq_ok.1 hretire
  have hkept : ∀ id, (db.store.get? id).isSome = (retired.get? id).isSome := by
    intro id
    rw [get?_setStatus]
    split_ifs <;> simp
  have hfresh' : retired.get? call.id = none := by
    rw [← Option.not_isSome_iff_eq_none, ← hkept, hfresh]
    simp
  -- the widening touches no particle
  obtain ⟨carried, hcarried⟩ : ∃ carried : Bool, carried = (call.widen ∧
    (written.store.get? candidateId).any fun row => row.model.status = .ACTIVE : Bool) := ⟨_, rfl⟩
  have hget : ∀ id, (if carried then addWidening written.store candidateId else written.store).get? id =
      written.store.get? id := by
    intro id
    split_ifs <;> rfl
  rw [← hcarried]
  obtain ⟨rfl, ⟨hfolded, hsome, hnone⟩ | ⟨hnot, hnot', hreconciled⟩⟩ :=
    applyBelief_spec hfresh' hbelief
  · refine iff_of_false (fun hreports => ?_) (by tauto)
    have hstored := hreports.events ⟨.PARTICLE_SUPERSEDED, [supersedesId, call.id]⟩ (by simp [hsome])
      call.id (by simp)
    rw [hget, hnone] at hstored
    cases hstored
  · refine iff_of_true ⟨?_, fun event hevent id hid => ?_⟩ ⟨hnot, hnot'⟩
    · -- a supersession asked for is not reported as one
      obtain ⟨hasserted, hinconsistency, -⟩ := hreconciled.result false (by simp)
      refine ⟨fun id hid => ?_, fun id hid => ?_, fun hverdict => ?_⟩
      · obtain ⟨row, hrow, hstatus⟩ := hasserted id hid
        exact ⟨row, (hget id).trans hrow, hstatus⟩
      · obtain ⟨row, hrow, hrecord⟩ := hinconsistency id hid
        exact ⟨row, (hget id).trans hrow, hrecord⟩
      · exact absurd hverdict verdict_mapResult_false
    · rw [hget]
      rcases List.mem_append.1 hevent with hevent | hevent
      · rcases List.mem_append.1 hevent with hevent | hevent
        · exact hreconciled.events event hevent id hid
        · split_ifs at hevent with hcarry
          · obtain rfl := List.mem_singleton.1 hevent
            obtain rfl := List.mem_singleton.1 hid
            rw [hcarry] at hcarried
            have hany := (of_decide_eq_true hcarried.symm).2
            cases hrow : written.store.get? call.id with
            | none =>
                rw [hrow] at hany
                cases hany
            | some row => rfl
          · cases hevent
      · obtain rfl := List.mem_singleton.1 hevent
        rcases List.mem_cons.1 hid with rfl | hid
        · refine hreconciled.keeps id ?_
          rw [← hkept, hpredecessor]
          rfl
        · split_ifs at hid with hsome
          · obtain rfl := List.mem_singleton.1 hid
            exact hreconciled.candidate hsome
          · cases hid

/-- **A belief write reports only what it stored exactly when, at its writes, the store holds no live
twin of the candidate and no open hold of it.**  The candidate's id is new. -/
theorem reportsStored_iff (verb : BeliefVerb) (hfresh : db.store.get? call.id = none)
    (h : verb.run env db call = .ok write) :
    ReportsStored db.store write ↔
      ¬ WouldSuppress env (verb.reconciled db.store call) (call.candidate verb.supersedes) ∧
        ¬ WouldAbsorb env (verb.reconciled db.store call) (call.candidate verb.supersedes) := by
  cases verb with
  | assertBelief => exact reportsStored_assertBelief hfresh h
  | supersedeBelief supersedesId => exact reportsStored_supersedeBelief hfresh h

end Verbs

/-- The environment of the examples. -/
def ReconcileEnv.verbatim : ReconcileEnv where
  ingest := .verbatim

/-- A belief of the examples, without an embedding. -/
def exampleCall (id content : String) : BeliefCall where
  id := id
  content := content
  confidence := 1
  assertedBy := "agent"
  assertedAt := 7
  subjectIds := []
  entryId := "excerpt"
  snapshotId := "s1"
  gathered := { embedding := none, searched := true }
  answers := { outcome := fun _ => ⟨some .INCONSISTENT, false⟩, recordId := "record", now := 8 }
  tables := {}

/-- What a call of a verb leaves of the store with three claims. -/
def writtenBy (verb : BeliefVerb) (call : BeliefCall) : BeliefWritten :=
  (verb.run .verbatim threeClaims call).toOption.getD
    ⟨{}, [], { assertedParticleId := none, verdict := .ASSERTED }⟩

theorem reportsStored_iff_superseded :
    (writtenBy (.supersedeBelief "a") (exampleCall "n" "d")).result.assertedParticleId = some "n" ∧
      ReportsStored threeClaims.store (writtenBy (.supersedeBelief "a") (exampleCall "n" "d")) := by
  have hrun : (BeliefVerb.supersedeBelief "a").run .verbatim threeClaims (exampleCall "n" "d") =
      .ok (writtenBy (.supersedeBelief "a") (exampleCall "n" "d")) := rfl
  refine ⟨rfl, (reportsStored_iff _ rfl hrun).2 ⟨by decide +kernel, by decide +kernel⟩⟩

/-- **A belief that is already held is reported under an id that was never stored**: the store states
`a`, and asserting it again is suppressed. -/
theorem not_reportsStored_suppressed :
    BeliefVerb.assertBelief.run .verbatim threeClaims (exampleCall "n" "a") =
        .ok (writtenBy .assertBelief (exampleCall "n" "a")) ∧
      (writtenBy .assertBelief (exampleCall "n" "a")).result.assertedParticleId = some "n" ∧
      ¬ ReportsStored threeClaims.store (writtenBy .assertBelief (exampleCall "n" "a")) := by
  refine ⟨rfl, rfl, fun h => ?_⟩
  obtain ⟨row, hrow, -⟩ := h.result.asserted "n" rfl
  have hnone : (writtenBy .assertBelief (exampleCall "n" "a")).store.get? "n" = none := rfl
  rw [hnone] at hrow
  cases hrow

end ParticlesEngine
