/-
**The reconcile sweeps.**

Two batch passes over the ACTIVE particles of a store.  The document sweep pairs each claim of a
superseded document with the most similar claim of the superseding one; the update sweep pairs the
claims about one subject, older and newer.  Both collect their pairs once, sort them by similarity,
and then probe and demote pair after pair, each demotion in a transaction of its own, while other
processes write between.

The answers of the probes, the ladder of the core package and what other writers commit are
parameters; the other writers act while a probe runs, so each step sees what they left.

Main definitions:

* `supersessionCandidates`, `documentStep` — the two phases of `reconcile_supersession`;
* `sweepUpdateCandidates`, `updateStep` — the two phases of `reconcile_updates`.
-/

import ParticlesEngine.ConflictPlan
import ParticlesEngine.ConflictSearch
import ParticlesEngine.DocumentSupersession
import ParticlesEngine.FirstByKey

set_option relaxedAutoImplicit false
set_option autoImplicit false

open SortBy FirstByKey

namespace ParticlesEngine

/-! ### What both sweeps share -/

/-- What a sweep reads of its process, and what other writers do to the store meanwhile. -/
structure SweepEnv where
  ingest : IngestEnv
  table : TransitionTable
  now : Instant
  /-- the probes allowed in one run -/
  probeCap : ℕ
  dryRun : Bool := false
  /-- what other writers commit while the probe with the given number runs -/
  others : ℕ → Store → Store := fun _ store => store

/-- One demotion of the report. -/
structure SweepDemotion where
  supersededParticleId : String
  winningParticleId : String
  similarity : ℚ
  deriving DecidableEq, Repr

/-- A sweep in progress. -/
structure SweepState where
  store : Store
  demotedIds : List String := []
  probed : ℕ := 0
  demotions : List SweepDemotion := []
  /-- the demotions committed, each the loser and the winner that its event names -/
  written : List (String × String) := []
  deriving DecidableEq

/-- `load_active_candidates`, uncached. -/
def SweepEnv.loadActiveCandidates (env : SweepEnv) (store : Store) : List EmbeddingPair :=
  getActiveParticlesWithEmbeddings env.ingest.float32 env.ingest.currentId store 0 none

/-- The state once a probe is spent: the other writers have moved on. -/
def SweepState.probe (s : SweepState) (env : SweepEnv) : SweepState :=
  { s with store := env.others s.probed s.store, probed := s.probed + 1 }

/-- The state with a demotion reported. -/
def SweepState.report (s : SweepState) (loser winner : String) (similarity : ℚ) : SweepState :=
  { s with
    demotedIds := s.demotedIds ++ [loser]
    demotions := s.demotions ++ [⟨loser, winner, similarity⟩] }

/-- The first SOURCE reference of a particle. -/
def Particle.sourceRef (p : Particle) : Option ProvenanceRef :=
  p.provenance.find? fun ref => ref.type = .SOURCE

/-! ### The document sweep -/

/-- A probe-ready pair of the document sweep. -/
structure DocumentCandidate where
  similarity : ℚ
  superseded : Particle
  superseding : Particle
  supersedingEntry : String
  supersededEntry : String
  deriving DecidableEq

/-- What the document sweep reads beside. -/
structure DocumentSweep extends SweepEnv where
  documents : DocumentEnv
  /-- `document_supersession.enabled` -/
  enabled : Bool := true
  singleTrustOrder : Bool := true
  /-- the replacement-signal probe: does the first content replace the second -/
  contradictionSignal : ℕ → String → String → Option Bool
  /-- `resolve_conflict` of the superseded and the superseding claim, given the signal -/
  resolveConflict : Particle → Particle → Bool → ConflictVerdict

section Document

variable (env : DocumentSweep)

/-- The loaded claims whose first source is the entry. -/
def claimsOfEntry (loaded : List EmbeddingPair) (entryId : String) : List EmbeddingPair :=
  loaded.filter fun pair => pair.1.sourceRef.map ProvenanceRef.corpusEntryId = some entryId

/-- The most similar superseding claim, the first one of equals. -/
def mostSimilar (superseding : List EmbeddingPair) (embedding : Embedding) : ℚ × Option Particle :=
  superseding.foldl (fun best pair =>
    let sim := env.ingest.core.cosineSimilarity pair.2 embedding
    if best.1 < sim then (sim, some pair.1) else best) (0, none)

/-- **`_supersession_candidates`.** -/
def supersessionCandidates (store : Store) (entryPairs : List (String × String)) :
    List DocumentCandidate :=
  let loaded := env.loadActiveCandidates store
  entryPairs.flatMap fun entries =>
    (claimsOfEntry loaded entries.2).filterMap fun sub =>
      match mostSimilar env (claimsOfEntry loaded entries.1) sub.2 with
      | (_, none) => none
      | (sim, some best) =>
          if sim < env.ingest.cfg.similarityThreshold then none
          else some ⟨sim, sub.1, best, entries.1, entries.2⟩

/-- The pairs of a run of the document sweep, in the order in which they are probed.  A store under
more than one trust order is not swept, and a URI that cannot be parsed raises before the first probe. -/
def documentCandidates (store : Store) : List DocumentCandidate :=
  if env.enabled ∧ env.singleTrustOrder then
    match iterSupersessionEntryPairs env.documents store with
    | .error _ => []
    | .ok entryPairs =>
        sortBy (fun c : DocumentCandidate => -c.similarity)
          (supersessionCandidates env store entryPairs)
  else []

/-- The ladder reads the pair as superseded by its document. -/
def documentSupersedes (k : ℕ) (c : DocumentCandidate) : Bool :=
  env.resolveConflict c.superseded c.superseding
    (env.contradictionSignal k c.superseding.content c.superseded.content = some true) =
      .DOCUMENT_SUPERSEDES

/-- **One pair of `reconcile_supersession`**; `none` when the write raises, which ends the sweep.
Whether the winner was demoted earlier is not looked at. -/
def documentStep (s : SweepState) (c : DocumentCandidate) : Option SweepState :=
  if env.probeCap ≤ s.probed then some s
  else if c.superseded.id ∈ s.demotedIds then some s
  else if documentSupersedes env s.probed c then
    let reported := (s.probe env.toSweepEnv).report c.superseded.id c.superseding.id c.similarity
    if env.dryRun then some reported
    else do
      let store ← (updateParticleStatus env.table env.now reported.store c.superseded.id
        .PROVENANCE_STALE (some .DOCUMENT_SUPERSEDED)).toOption
      return { reported with
        store := store
        written := reported.written ++ [(c.superseded.id, c.superseding.id)] }
  else some (s.probe env.toSweepEnv)

end Document

/-! ### The update sweep -/

/-- A probe-ready pair of the update sweep. -/
structure UpdateCandidate where
  similarity : ℚ
  newer : Particle
  older : Particle
  deriving DecidableEq

/-- The update probe's reading of a pair. -/
inductive SlotVerdict where
  | CHANGES
  | FIXED
  | DIFFERENT
  deriving DecidableEq, Repr

/-- What the sweep does with a pair. -/
inductive SweepAction where
  | DEMOTE
  | REVIEW
  | KEEP
  deriving DecidableEq, Repr

/-- The rules of the core package on the update probe's reading. -/
structure SlotRules where
  /-- `admits_update` -/
  admitsUpdate : Option SlotVerdict → Bool
  /-- `offers_subject_pair` -/
  offersSubjectPair : Option SlotVerdict → Bool
  /-- `sweep_action` -/
  sweepAction : Option SlotVerdict → SweepAction
  /-- `sweep_action_first`: `none` where the contradiction probe is asked too -/
  sweepActionFirst : Option SlotVerdict → Option SweepAction

/-- The rules with the values that the tests of the ladder fix. -/
def SlotRules.documented : SlotRules where
  admitsUpdate slot := slot = some .CHANGES
  offersSubjectPair slot := slot ≠ some .DIFFERENT
  sweepAction
    | some .CHANGES => .DEMOTE
    | some .FIXED => .REVIEW
    | _ => .KEEP
  sweepActionFirst
    | some .CHANGES => some .DEMOTE
    | some .FIXED => none
    | _ => some .KEEP

/-- What the update sweep reads beside. -/
structure UpdateSweep extends SweepEnv where
  /-- `reconciliation.update_supersession.enabled` -/
  enabled : Bool := true
  rules : SlotRules
  speaker : Store → Option SpeakerKey := fun _ => none
  /-- the delta scope -/
  scopeIds : Option (List String) := none
  isGenericInstancePair : Particle → Particle → Bool
  /-- the tests of `update_order` but for the dates: both extracted, and of one lineage -/
  sameLineage : Store → Particle → Particle → Bool
  /-- the observer precondition reconciles the newer claim with the older one -/
  observerReconciles : Store → Particle → Particle → Bool := fun _ _ _ => true
  /-- the ledger has cleared the pair, newer claim first -/
  cleared : Particle → Particle → Bool := fun _ _ => false
  /-- the update question comes before the contradiction probe -/
  askedFirst : Particle → Bool
  contradictionSignal : ℕ → Particle → Particle → Option Bool
  /-- the update probe on the older and the newer claim -/
  slot : ℕ → Particle → Particle → Option SlotVerdict
  /-- `resolve_conflict` of the older and the newer claim, given whether it was asked first -/
  resolveConflict : Particle → Particle → Bool → ConflictVerdict
  contentHash : String → String
  modelId : String
  records : RecordBuilder
  /-- the id of the record that the probe with the given number opens -/
  recordId : ℕ → String

/-- A review of a pair that gives a fixed slot two values. -/
structure SweepReview where
  aParticleId : String
  bParticleId : String
  recordId : Option String := none
  alreadyOpen : Bool := false
  deriving DecidableEq, Repr

/-- The update sweep in progress. -/
structure UpdateState extends SweepState where
  updateProbed : ℕ := 0
  differentSlot : ℕ := 0
  reviews : List SweepReview := []
  /-- the pairs an open record names, once read -/
  openPairs : Option (List (String × String)) := none
  capReached : Bool := false
  notReached : ℕ := 0

section Update

/-- The snapshot of an entry with the given id. -/
def snapshotOf (store : Store) (entryId : String) (snapshotId : Option String) :
    Option SnapshotRow := do
  let _ ← store.entries.get? entryId
  let snapshotId ← snapshotId
  (store.snapshots.get? snapshotId).filter fun row => row.entryId = entryId

/-- `latest_source_date`: the newest source date over every SOURCE reference. -/
def latestSourceDate (store : Store) (p : Particle) : Option Instant :=
  (p.provenance.filterMap fun ref =>
    if ref.type = .SOURCE then
      (snapshotOf store ref.corpusEntryId ref.snapshotId).bind SnapshotRow.contentPublishedAt
    else none).max?

/-- The source date `update_order` compares: the latest one, else that of the first reference. -/
def sourceDate (store : Store) (p : Particle) : Option Instant :=
  (latestSourceDate store p).or (p.sourceRef.bind fun ref =>
    (snapshotOf store ref.corpusEntryId ref.snapshotId).bind SnapshotRow.contentPublishedAt)

variable (env : UpdateSweep)

/-- `_pair_update_order`: `1` when `a` is strictly newer, `-1` when `b` is. -/
def pairUpdateOrder (store : Store) (a b : Particle) : Option ℤ :=
  if a.sourceRef.isSome ∧ b.sourceRef.isSome ∧ env.sameLineage store a b then
    match sourceDate store a, sourceDate store b with
    | some aDate, some bDate =>
        if bDate < aDate then some 1 else if aDate < bDate then some (-1) else none
    | _, _ => none
  else none

/-- The pairs of two positions of a list, the earlier one first. -/
def positionPairs {α : Type} : List α → List (α × α)
  | [] => []
  | a :: l => l.map (fun b => (a, b)) ++ positionPairs l

/-- The two ids of a pair, in order. -/
def pairKey (pair : EmbeddingPair × EmbeddingPair) : String × String :=
  if pair.1.1.id < pair.2.1.id then (pair.1.1.id, pair.2.1.id) else (pair.2.1.id, pair.1.1.id)

/-- The body of the loop of `_update_candidates`. -/
def updateCandidate (store : Store) (pair : EmbeddingPair × EmbeddingPair) :
    Option UpdateCandidate :=
  let (a, b) := (pair.1.1, pair.2.1)
  let sim := env.ingest.core.cosineSimilarity pair.1.2 pair.2.2
  if env.scopeIds.any (fun ids => a.id ∉ ids ∧ b.id ∉ ids) then none
  else if sim < env.ingest.cfg.subjectFloor then none
  else if env.isGenericInstancePair a b then none
  else do
    let order ← pairUpdateOrder env store a b
    let (newer, older) := if 0 < order then (a, b) else (b, a)
    if env.observerReconciles store newer older then some ⟨sim, newer, older⟩ else none

/-- **`_update_candidates`**, each pair of claims once. -/
def gatherUpdates (store : Store) : List UpdateCandidate :=
  let index := SubjectIndex.build env.ingest (env.loadActiveCandidates store) (env.speaker store)
  let subjects := (firstByKey Prod.fst [] index.bySubject).map Prod.fst
  (firstByKey pairKey [] (subjects.flatMap fun subject => positionPairs (index.get subject)))
    |>.filterMap (updateCandidate env store)

/-- The pairs of a run of the update sweep, in the order in which they are probed. -/
def sweepUpdateCandidates (store : Store) : List UpdateCandidate :=
  if env.enabled then
    sortBy (fun c : UpdateCandidate => -c.similarity)
      ((gatherUpdates env store).filter fun c => !env.cleared c.newer c.older)
  else []

/-- What the probes say of a pair; `none` when the contradiction probe, asked first, did not confirm
it. -/
def probedAction (k : ℕ) (c : UpdateCandidate) : Option SweepAction :=
  let confirmed := env.contradictionSignal k c.newer c.older = some true
  let slot := env.slot k c.older c.newer
  if env.askedFirst c.older then
    match env.rules.sweepActionFirst slot with
    | some action => some action
    | none => some (if confirmed then env.rules.sweepAction slot else .KEEP)
  else if confirmed then some (env.rules.sweepAction slot)
  else none

/-- `_open_record_pairs`: the pairs of claims that an INCONSISTENCY record names. -/
def openRecordPairs (store : Store) : List (String × String) :=
  (store.particles.rows.filter fun row => row.model.status = .INCONSISTENCY).flatMap fun row =>
    (positionPairs ((row.model.provenance.filter fun ref => ref.type = .PARTICLE).map
      ProvenanceRef.corpusEntryId)).filter fun pair => pair.1 ≠ pair.2

/-- The open pairs include the two ids, in either order. -/
def namesPair (pairs : List (String × String)) (a b : String) : Bool :=
  (a, b) ∈ pairs ∨ (b, a) ∈ pairs

/-- `_set_supersedes_if_unset`. -/
def setSupersedesIfUnset (store : Store) (winnerId loserId : String) : Store :=
  store.modifyParticle winnerId
    (fun row => if row.model.supersedes = none then
      { row with model := { row.model with supersedes := some loserId } } else row)
    (fun row => by unfold ParticleRow.id; split_ifs <;> rfl)
    (fun row => by split_ifs <;> rfl)

/-- The property of a record that says which pass opened it. -/
def ORIGIN_KEY : String := "conflict:origin"

def FIXED_SLOT_ORIGIN : String := "update_sweep_fixed_slot"

/-- The record that `_open_fixed_slot_review` inserts: A the older claim, B the newer. -/
def fixedSlotRecord (k : ℕ) (c : UpdateCandidate) : Particle :=
  let record := env.records.build (env.recordId k) c.older c.newer (triggerRefFor c.newer)
  { record with properties := setProperty record.properties ORIGIN_KEY FIXED_SLOT_ORIGIN }

/-- The branch of a pair that gives a fixed slot two values: a record is opened, unless one is. -/
def openReview (s : UpdateState) (k : ℕ) (c : UpdateCandidate) : Option UpdateState :=
  let openPairs := s.openPairs.getD (openRecordPairs s.store)
  let review : SweepReview := { aParticleId := c.older.id, bParticleId := c.newer.id }
  let opened := { s with openPairs := some (openPairs ++ [(c.older.id, c.newer.id)]) }
  if namesPair openPairs c.older.id c.newer.id then
    some { opened with reviews := s.reviews ++ [{ review with alreadyOpen := true }] }
  else if env.dryRun then some { opened with reviews := s.reviews ++ [review] }
  else do
    let record := fixedSlotRecord env k c
    let store ← (insertValidated env.contentHash env.modelId env.table s.store record
      none).toOption
    return { opened with
      store := store
      reviews := s.reviews ++ [{ review with recordId := some record.id }] }

/-- The branch of a pair that is an update: the older claim is demoted, if the ladder says so. -/
def demoteOlder (s : UpdateState) (c : UpdateCandidate) : Option UpdateState :=
  if env.resolveConflict c.older c.newer (env.askedFirst c.older) ≠ .UPDATE_SUPERSEDES then some s
  else
    let reported :=
      { s with toSweepState := s.toSweepState.report c.older.id c.newer.id c.similarity }
    if env.dryRun then some reported
    else do
      let store ← (updateParticleStatus env.table env.now s.store c.older.id .PROVENANCE_STALE
        (some .SUPERSEDED_BY_UPDATE)).toOption
      return { reported with
        store := setSupersedesIfUnset store c.newer.id c.older.id
        written := s.written ++ [(c.older.id, c.newer.id)] }

/-- **One pair of `reconcile_updates`**; `none` when a write raises, which ends the sweep.  Neither
claim of a pair may have been demoted earlier. -/
def updateStep (s : UpdateState) (c : UpdateCandidate) : Option UpdateState :=
  if env.probeCap ≤ s.probed then some { s with capReached := true, notReached := s.notReached + 1 }
  else if c.newer.id ∈ s.demotedIds ∨ c.older.id ∈ s.demotedIds then some s
  else
    let action := probedAction env s.probed c
    let asked := env.askedFirst c.older || action.isSome
    let probed := { s with
      toSweepState := s.toSweepState.probe env.toSweepEnv
      updateProbed := s.updateProbed + if asked then 1 else 0 }
    match action with
    | none => some probed
    | some .KEEP => some { probed with differentSlot := s.differentSlot + 1 }
    | some .REVIEW => openReview env probed s.probed c
    | some .DEMOTE => demoteOlder env probed c

end Update

end ParticlesEngine
